import Strata.Proofs.Engine.Settling

/-!
# What is put in the queue

Turns are put at the end of the queue (`Puts`). Most of what runs neither carries a submission on nor lets a call go
on after one: it puts plain turns only, and leaves alone what is held back, who listens and which signals are
aborted (`perform_puts`, `apply_puts`).
-/

namespace Strata

variable {ν α : Type}

/-- A turn that neither carries a submission nor lets a call go on after one. -/
def Turn.plain : Turn ν α → Bool
  | scopesClosed _ | workDone .. | mapped .. | rejected .. | finished .. | reported .. | drained .. | resumed .. =>
      false
  | _ => true

/-- Running the turn carries a submission on, or lets a call go on to one or after one. -/
def Turn.relays : Turn ν α → Bool
  | planned _ | scopesClosed _ | workDone .. | mapped .. | rejected .. | finished .. | collected .. | drained .. =>
      true
  | _ => false

def Operation.relays : Operation ν α → Bool
  | submit _ | newSignal | abort .. | unhold => true
  | _ => false

namespace Engine

/-- Turns with a property are put in the queue, and nothing differs of those that wait elsewhere. -/
structure Puts (P : Turn ν α → Prop) (e e' : Engine ν α) : Prop where
  turns : ∃ more, e'.turns = e.turns ++ more ∧ ∀ x ∈ more, P x.2
  heldBack : e'.heldBack = e.heldBack
  listeners : e'.listeners = e.listeners
  signals : e'.signals = e.signals

variable {P : Turn ν α → Prop} {e e' e'' : Engine ν α}

namespace Puts

theorem of_eq (hturns : e'.turns = e.turns) (hheld : e'.heldBack = e.heldBack)
    (hlisteners : e'.listeners = e.listeners) (hsignals : e'.signals = e.signals) : e.Puts P e' :=
  ⟨⟨[], by rw [hturns, List.append_nil], fun _ hx => absurd hx List.not_mem_nil⟩, hheld, hlisteners, hsignals⟩

theorem refl (e : Engine ν α) : e.Puts P e := of_eq rfl rfl rfl rfl

theorem trans (h : e.Puts P e') (h' : e'.Puts P e'') : e.Puts P e'' := by
  obtain ⟨more, hmore, hP⟩ := h.turns
  obtain ⟨more', hmore', hP'⟩ := h'.turns
  refine ⟨⟨more ++ more', by rw [hmore', hmore, List.append_assoc], fun x hx => ?_⟩, h'.heldBack.trans h.heldBack,
    h'.listeners.trans h.listeners, h'.signals.trans h.signals⟩
  exact (List.mem_append.mp hx).elim (hP x) (hP' x)

theorem mono {Q : Turn ν α → Prop} (h : e.Puts P e') (hPQ : ∀ x, P x → Q x) : e.Puts Q e' := by
  obtain ⟨more, hmore, hP⟩ := h.turns
  exact ⟨⟨more, hmore, fun x hx => hPQ x.2 (hP x hx)⟩, h.heldBack, h.listeners, h.signals⟩

theorem schedule (e : Engine ν α) (delay : Nat) {x : Turn ν α} (hx : P x) : e.Puts P (e.schedule delay x) :=
  ⟨⟨[(delay, x)], rfl, fun y hy => by rw [List.mem_singleton.mp hy]; exact hx⟩, rfl, rfl, rfl⟩

theorem scheduleAll {β : Type} (l : List β) (delay : Engine ν α → Nat) (f : β → Turn ν α) (hf : ∀ x ∈ l, P (f x))
    (e : Engine ν α) : e.Puts P (l.foldl (fun e x => e.schedule (delay e) (f x)) e) :=
  List.foldlRecOn l _ (motive := fun e' : Engine ν α => e.Puts P e') (refl e) fun e' h x hx =>
    h.trans (schedule e' (delay e') (hf x hx))

/-- A turn that was due is due, and one that is new has the property. -/
theorem mem (h : e.Puts P e') {x : Nat × Turn ν α} : x ∈ e'.turns → x ∈ e.turns ∨ P x.2 := by
  obtain ⟨more, hmore, hP⟩ := h.turns
  rw [hmore]
  exact fun hx => (List.mem_append.mp hx).imp_right (hP x)

end Puts

/-- Only plain turns are put in the queue. -/
abbrev PutsPlain : Engine ν α → Engine ν α → Prop := Puts fun x => x.plain = true

/-! ## Pipelines -/

theorem answer_puts (e : Engine ν α) (w : PipelineWaiter) (result : Except Failure Pipeline) :
    e.PutsPlain (e.answer w result) := by
  cases w with
  | lookup job => exact .of_eq rfl rfl rfl rfl
  | step job index => exact .schedule e 1 rfl

theorem answerAll_puts (e : Engine ν α) (answers : List (PipelineWaiter × Except Failure Pipeline)) :
    e.PutsPlain (e.answerAll answers) :=
  List.foldlRecOn answers _ (motive := fun e' : Engine ν α => e.PutsPlain e') (.refl e) fun e' h x _ =>
    h.trans (answer_puts e' x.1 x.2)

theorem startBuild_puts (e : Engine ν α) (serial : Nat) (key : PipelineKey) :
    e.PutsPlain (e.startBuild serial key) := by
  unfold startBuild
  generalize e.cache.compile e.pool.device key = r
  obtain ⟨compilation, cache, device⟩ := r
  have hset : e.PutsPlain { e with cache, pool := { e.pool with device } } := .of_eq rfl rfl rfl rfl
  cases compilation with
  | failed failure => exact hset.trans (.schedule _ 1 rfl)
  | refused failure => exact hset.trans (.schedule _ 2 rfl)
  | compiling gate =>
    cases gate with
    | none => exact hset.trans (.schedule _ 2 rfl)
    | some gate => exact .of_eq rfl rfl rfl rfl

theorem requestPipeline_puts (e : Engine ν α) (key : PipelineKey) (w : PipelineWaiter) :
    e.PutsPlain (e.requestPipeline key w).2 := by
  unfold requestPipeline
  generalize e.cache.request key w = r
  obtain ⟨reply, cache⟩ := r
  have hset : e.PutsPlain { e with cache } := .of_eq rfl rfl rfl rfl
  cases reply with
  | refused failure => exact hset
  | ready pipeline => exact hset
  | joined => exact hset
  | started serial => exact hset.trans (startBuild_puts _ serial key)

theorem lookupPipeline_puts (e : Engine ν α) (key : PipelineKey) : e.PutsPlain (e.lookupPipeline key).2 := by
  have hadd : e.PutsPlain (e.addJob .lookup).2 := .of_eq rfl rfl rfl rfl
  have hrequest := hadd.trans (requestPipeline_puts (e.addJob .lookup).2 key (.lookup (e.addJob .lookup).1))
  unfold lookupPipeline
  dsimp only
  split
  all_goals
    rename_i heq
    rw [heq] at hrequest
  · exact hrequest.trans (.of_eq rfl rfl rfl rfl)
  · exact hrequest

theorem buildEnded_puts (e : Engine ν α) (serial : Nat) (result : Except Failure Artifact) :
    e.PutsPlain (e.buildEnded serial result) := by
  unfold buildEnded
  generalize e.cache.finish serial result = r
  obtain ⟨⟨answers, warning⟩, cache⟩ := r
  dsimp only
  refine Puts.trans ?_ (answerAll_puts _ answers)
  cases warning <;> exact .of_eq rfl rfl rfl rfl

theorem closePipelines_puts (e : Engine ν α) (closing : Closing) : e.PutsPlain (e.closePipelines closing) := by
  have hset : e.PutsPlain { e with cache := (e.cache.close closing).2 } := .of_eq rfl rfl rfl rfl
  exact hset.trans (answerAll_puts _ _)

theorem openGate_puts (e : Engine ν α) : e.PutsPlain e.openGate := by
  have hset : e.PutsPlain { e with
      gated := e.gated.filter (·.1 != e.pool.device.gates)
      pool := { e.pool with device := { e.pool.device with gate := none } } } := .of_eq rfl rfl rfl rfl
  exact hset.trans (.scheduleAll _ (fun _ => 1)
    (fun x : Nat × Nat × PipelineKey => .buildUngated x.2.1 x.2.2) (fun _ _ => rfl) _)

/-! ## Plans -/

theorem requestSteps_puts (e : Engine ν α) (job : JobId) (i : Nat) (steps : List (PlanStep ν α)) :
    e.PutsPlain (e.requestSteps job i steps).2 := by
  induction steps generalizing e i with
  | nil => exact .refl e
  | cons step rest ih => exact (requestPipeline_puts e step.key (.step job i)).trans (ih _ (i + 1))

theorem arriveNow_puts (e : Engine ν α) (job : JobId) (i : Nat)
    (replies : List (Option (Except Failure Pipeline))) : e.PutsPlain (e.arriveNow job i replies) := by
  induction replies generalizing e i with
  | nil => exact .refl e
  | cons reply rest ih =>
    cases reply with
    | none => exact ih e (i + 1)
    | some result =>
      have hturn : e.PutsPlain (e.schedule 1 (.pipelineArrived job i result)) := .schedule e 1 rfl
      exact hturn.trans (ih _ (i + 1))

theorem setPlanning_puts (e : Engine ν α) (job : JobId) (p : Planning ν α) : e.PutsPlain (e.setPlanning job p) := by
  unfold setPlanning
  split <;> exact .of_eq rfl rfl rfl rfl

theorem pipelineArrived_puts (e : Engine ν α) (job : JobId) (index : Nat) (result : Except Failure Pipeline) :
    e.PutsPlain (e.pipelineArrived job index result) := by
  have hready (p : Planning ν α) (result : Except Failure (List Pipeline)) :
      e.PutsPlain ((e.setPlanning job p).schedule 1 (.planReady job result)) :=
    (setPlanning_puts e job p).trans (.schedule _ 1 rfl)
  unfold pipelineArrived
  split
  · exact .refl e
  · split
    · exact .refl e
    · split
      · exact hready _ _
      · dsimp only
        split
        · exact hready _ _
        · exact setPlanning_puts e job _

theorem planMade_puts (e : Engine ν α) (job : JobId) (result : Except Failure PlanId) :
    e.PutsPlain (e.planMade job result) := by
  unfold planMade
  split
  · exact .of_eq rfl rfl rfl rfl
  · rename_i c _
    have hset : e.PutsPlain (e.setJob job (.composite { c with phase := .planned result })) :=
      .of_eq rfl rfl rfl rfl
    exact hset.trans (.schedule _ 1 rfl)
  · exact .refl e

section
variable [Measure ν]

theorem beginPlanning_puts (e : Engine ν α) (job : JobId) (stack : List (BlendDescriptor ν α))
    (uploads : List (Upload α)) : e.PutsPlain (e.beginPlanning job stack uploads).2 := by
  unfold beginPlanning
  split
  · exact .refl e
  · exact (requestSteps_puts e job 0 _).trans (arriveNow_puts _ job 0 _)

theorem startPlan_puts (e : Engine ν α) (stack : List (BlendDescriptor ν α)) (uploads : List (Upload α)) :
    e.PutsPlain (e.startPlan stack uploads).2 := by
  have hadd : e.PutsPlain (e.addJob .lookup).2 := .of_eq rfl rfl rfl rfl
  have hbegin := hadd.trans (beginPlanning_puts (e.addJob .lookup).2 (e.addJob .lookup).1 stack uploads)
  unfold startPlan
  dsimp only
  split
  all_goals
    rename_i heq
    rw [heq] at hbegin
    exact hbegin.trans (.of_eq rfl rfl rfl rfl)

theorem planReady_puts [Channel α] [Stored α] (e : Engine ν α) (job : JobId)
    (result : Except Failure (List Pipeline)) : e.PutsPlain (e.planReady job result) := by
  have hmade (pool : Pool ν α) (plans : Array (PlanRecord ν α)) (result : Except Failure PlanId) :
      e.PutsPlain (({ e with pool, plans } : Engine ν α).planMade job result) := by
    have hset : e.PutsPlain { e with pool, plans } := .of_eq rfl rfl rfl rfl
    exact hset.trans (planMade_puts _ job result)
  unfold planReady
  split
  · exact .refl e
  · exact planMade_puts e job _
  · split
    · exact hmade _ e.plans _
    · exact hmade _ _ _

/-! ## Composite calls -/

theorem leave_puts (e : Engine ν α) (job : JobId) (owned : List Handle) (result : Except Failure (Raster ν α)) :
    e.PutsPlain (e.leave job owned result) := by
  unfold leave
  split
  · exact .refl e
  · rename_i c _
    generalize (e.pool.releaseLive (c.held ++ owned)).endWith result = r
    obtain ⟨result, pool⟩ := r
    have hset : e.PutsPlain (({ e with pool } : Engine ν α).setCall job { c with held := [], phase := .ended }) :=
      .of_eq rfl rfl rfl rfl
    exact hset.trans (.schedule _ 1 rfl)

section
variable [Channel α]

theorem planAttempt_puts (e : Engine ν α) (job : JobId) (c : CompositeCall ν α) (destination : Handle)
    (sources : List Handle) : e.PutsPlain (e.planAttempt job c destination sources) := by
  unfold planAttempt
  dsimp only
  split
  · have hset : e.PutsPlain (e.setCall job { c with held := sources ++ [destination] }) := .of_eq rfl rfl rfl rfl
    exact hset.trans (leave_puts _ job _ _)
  · rename_i stack _
    have hbegin := beginPlanning_puts e job stack (uploadsOf c.layers sources)
    have hset {e' : Engine ν α} (h : e.PutsPlain e') (c : CompositeCall ν α) : e.PutsPlain (e'.setCall job c) :=
      h.trans (.of_eq rfl rfl rfl rfl)
    split
    all_goals
      rename_i heq
      rw [heq] at hbegin
    · exact (hset hbegin _).trans (.schedule _ 1 rfl)
    · exact hset hbegin _

theorem startAttempt_puts (e : Engine ν α) (job : JobId) (c : CompositeCall ν α) :
    e.PutsPlain (e.startAttempt job c) := by
  have hset (pool : Pool ν α) (c : CompositeCall ν α) :
      e.PutsPlain (({ e with pool } : Engine ν α).setCall job c) :=
    .of_eq rfl rfl rfl rfl
  unfold startAttempt
  split
  · exact (hset e.pool _).trans (.schedule _ 1 rfl)
  · exact (hset e.pool _).trans (.schedule _ 1 rfl)
  · split
    · exact (hset _ _).trans (leave_puts _ job _ _)
    · dsimp only
      split
      · exact (hset _ _).trans (leave_puts _ job _ _)
      · rename_i pool _
        have hpool : e.PutsPlain { e with pool } := .of_eq rfl rfl rfl rfl
        exact hpool.trans (planAttempt_puts _ job c _ _)

theorem startComposite_puts (e : Engine ν α) (layers options : Value α) (verifies : Bool) :
    e.PutsPlain (e.startComposite layers options verifies).2 := by
  have hadd : e.PutsPlain (e.addJob .lookup).2 := .of_eq rfl rfl rfl rfl
  unfold startComposite
  dsimp only
  split
  · exact hadd.trans (.of_eq rfl rfl rfl rfl)
  · exact hadd.trans (.of_eq rfl rfl rfl rfl)
  · split
    · exact hadd.trans (.of_eq rfl rfl rfl rfl)
    · exact hadd.trans (startAttempt_puts _ _ _)

omit [Measure ν] in
theorem configure_puts (e : Engine ν α) (change : Value α) : e.PutsPlain (e.configure change).2 := by
  unfold configure
  split <;> exact .of_eq rfl rfl rfl rfl

variable [Stored α] [Transfer α]

theorem resumed_puts (e : Engine ν α) (job : JobId) (token : SubmissionId) (outcome : Outcome) :
    e.PutsPlain (e.resumed job token outcome) := by
  unfold resumed
  split
  · split
    · split
      · exact leave_puts e job _ _
      · exact .refl e
    · exact .refl e
  · exact .refl e

theorem attemptEnded_puts (e : Engine ν α) (job : JobId) (result : Except Failure (Raster ν α)) :
    e.PutsPlain (e.attemptEnded job result) := by
  unfold attemptEnded
  split
  · exact .refl e
  · dsimp only
    split <;> exact .of_eq rfl rfl rfl rfl
  · have hpool (entry : LogEntry) (pool : Pool ν α) : e.PutsPlain { e.report entry with pool } :=
      .of_eq rfl rfl rfl rfl
    dsimp only
    split
    · split
      · exact (hpool _ _).trans (startAttempt_puts _ job _)
      · exact .of_eq rfl rfl rfl rfl
    · exact .of_eq rfl rfl rfl rfl

end

/-! ## Submissions -/

omit [Measure ν] in
theorem wake_puts (e : Engine ν α) (token : SubmissionId) (woken : List (JobId × Outcome)) :
    e.PutsPlain (e.wake token woken) :=
  .scheduleAll woken (fun e => e.completion.wakeTurns) (fun x => .collected x.1 token x.2) (fun _ _ => rfl) e

omit [Measure ν] in
theorem reported_puts (e : Engine ν α) (token : SubmissionId) (outcome : Outcome) :
    e.PutsPlain (e.reported token outcome) := by
  have hset : e.PutsPlain
      { e with completion := (e.completion.settle token (outcome.mapError Failure.asError)).2 } :=
    .of_eq rfl rfl rfl rfl
  exact hset.trans (wake_puts _ token _)

theorem finish_puts (e : Engine ν α) (token : SubmissionId) : e.PutsPlain (e.finish token).2 := by
  unfold finish
  split <;> exact .of_eq rfl rfl rfl rfl

theorem abandonPending_puts (e : Engine ν α) (failure : Failure) : e.PutsPlain (e.abandonPending failure).2 := by
  refine Attempt.each_keeps (P := fun e' : Engine ν α => e.PutsPlain e') (fun e' he' token _ => ?_) (.refl e)
  have hfinish := he'.trans (finish_puts e' token)
  refine Attempt.andThen_keeps (P := fun e' : Engine ν α => e.PutsPlain e') hfinish fun _ _ => ?_
  have hset : e.PutsPlain { (e'.finish token).2 with
      completion := ((e'.finish token).2.completion.abandon token failure).2 } :=
        hfinish.trans (.of_eq rfl rfl rfl rfl)
  exact hset.trans (wake_puts _ token _)

omit [Measure ν] in
theorem shutDown_puts (e : Engine ν α) (closing : Closing) : e.PutsPlain (e.shutDown closing).2 := by
  refine Attempt.andThen_keeps (P := fun e' : Engine ν α => e.PutsPlain e') (.of_eq rfl rfl rfl rfl) fun _ _ => ?_
  have hclosed := closePipelines_puts { e with pool := (e.pool.close closing).2 } closing
  have hpool : e.PutsPlain { e with pool := (e.pool.close closing).2 } := .of_eq rfl rfl rfl rfl
  exact (hpool.trans hclosed).trans (.of_eq rfl rfl rfl rfl)

omit [Measure ν] in
theorem discardUnawaited_puts (e : Engine ν α) : e.PutsPlain e.discardUnawaited := by
  have hstep (e' : Engine ν α) (h : e.PutsPlain e') (token : SubmissionId) : e.PutsPlain
      ({ e' with completion := (e'.completion.discard token).2 }.wake token (e'.completion.discard token).1) := by
    have hset : e.PutsPlain { e' with completion := (e'.completion.discard token).2 } :=
      h.trans (.of_eq rfl rfl rfl rfl)
    exact hset.trans (wake_puts _ token _)
  have hall := List.foldlRecOn e.session.unawaited _ (motive := fun e' : Engine ν α => e.PutsPlain e') (.refl e)
    fun e' h token _ => hstep e' h token
  exact hall.trans (.of_eq rfl rfl rfl rfl)

theorem destroy_puts (e : Engine ν α) : e.PutsPlain e.destroy.2 := by
  unfold destroy
  split
  · exact .refl e
  · have hphase : e.PutsPlain { e with session := { e.session with phase := .destroyed } } := .of_eq rfl rfl rfl rfl
    have habandon := hphase.trans (abandonPending_puts _ (.of (.sessionDestroyed .deviceLost)))
    refine Attempt.andThen_keeps (P := fun e' : Engine ν α => e.PutsPlain e') habandon fun _ _ => ?_
    exact (habandon.trans (discardUnawaited_puts _)).trans (shutDown_puts _ _)

theorem lossSeen_puts (e : Engine ν α) (reason message : String) : e.PutsPlain (e.lossSeen reason message) := by
  unfold lossSeen
  split
  · exact .refl e
  · have hphase : e.PutsPlain { e.report (.deviceLost reason message) with
        session := { e.session with phase := .lost } } := .of_eq rfl rfl rfl rfl
    have habandon := hphase.trans (abandonPending_puts _ (.of (.deviceLostBecause reason message)))
    refine Attempt.andThen_keeps (P := fun e' : Engine ν α => e.PutsPlain e') habandon fun _ _ => ?_
    exact habandon.trans (shutDown_puts _ _)

omit [Measure ν] in
theorem lose_puts (e : Engine ν α) (message : String) : e.PutsPlain (e.lose message) := by
  unfold lose
  split
  · exact .refl e
  · have hset : e.PutsPlain { e with lossAnnounced := true } := .of_eq rfl rfl rfl rfl
    dsimp only
    split
    · exact hset.trans (.schedule _ 1 rfl)
    · exact hset

omit [Measure ν] in
theorem pass_puts (e : Engine ν α) (job : JobId) (token : SubmissionId) (o : Outcome)
    (hpass : ∀ c, e.call? job = some c →
      P (if c.signal.isSome then .drained job token o else .resumed job token o)) :
    e.Puts P (e.pass job token o) := by
  unfold pass
  split
  · exact .of_eq rfl rfl rfl rfl
  · rename_i c hc
    exact .schedule e 2 (hpass c (call?_eq.mpr hc))
  · exact .refl e

omit [Measure ν] in
theorem waitFor_puts (e : Engine ν α) (job : JobId) (token : SubmissionId)
    (hplain : ∀ x : Turn ν α, x.plain = true → P x)
    (hpass : ∀ c, e.call? job = some c → ∀ o,
      P (if c.signal.isSome then .drained job token o else .resumed job token o)) :
    e.Puts P (e.waitFor job token) := by
  have hpassed {e' : Engine ν α} (h : e.Puts P e') (hjobs : e'.jobs = e.jobs) (o : Outcome) :
      e.Puts P (e'.pass job token o) := by
    refine h.trans (pass_puts e' job token o fun c hc => ?_)
    rw [call?_eq, hjobs, ← call?_eq] at hc
    exact hpass c hc o
  unfold waitFor
  split
  · exact hpassed (.refl e) rfl _
  · split
    · exact hpassed (.refl e) rfl _
    · dsimp only
      generalize e.completion.wait token job = r
      obtain ⟨reply, completion⟩ := r
      have hset : e.Puts P { e with
          session := { e.session with unawaited := e.session.unawaited.erase token }
          completion } := .of_eq rfl rfl rfl rfl
      cases reply with
      | now o => exact hpassed hset rfl o
      | later o => exact hset.trans (.schedule _ 1 (hplain _ rfl))
      | suspended => exact hset

omit [Measure ν] in
theorem startWait_puts (e : Engine ν α) (token : SubmissionId) : e.PutsPlain (e.startWait token).2 := by
  have hadd : e.PutsPlain (e.addJob .wait).2 := .of_eq rfl rfl rfl rfl
  refine hadd.trans (waitFor_puts _ _ token (fun _ => id) fun c hc => ?_)
  have hwait : (e.addJob .wait).2.jobs[e.jobs.size]? = some .wait := Array.getElem?_push_size
  rw [call?_eq] at hc
  rw [hc] at hwait
  cases hwait

end

/-! ## Submissions on their way -/

theorem scopesClosed_puts (e : Engine ν α) (s : Encoded ν) :
    ((e.scopesClosed s).heldBack = e.heldBack ∨ (e.scopesClosed s).heldBack = e.heldBack ++ [s]) ∧
    ({ e with heldBack := (e.scopesClosed s).heldBack } : Engine ν α).Puts (fun x => x.carried? = some s.token)
      (e.scopesClosed s) := by
  have hput (device : Device ν α) {x : Turn ν α} (hx : x.carried? = some s.token) :
      (((e.setDevice device).schedule 1 x).heldBack = e.heldBack ∨
        ((e.setDevice device).schedule 1 x).heldBack = e.heldBack ++ [s]) ∧
      ({ e with heldBack := ((e.setDevice device).schedule 1 x).heldBack } : Engine ν α).Puts
        (fun x => x.carried? = some s.token) ((e.setDevice device).schedule 1 x) :=
    ⟨.inl rfl, ⟨[(1, x)], rfl, fun y hy => by rw [List.mem_singleton.mp hy]; exact hx⟩, rfl, rfl, rfl⟩
  unfold scopesClosed
  split
  · exact hput e.pool.device rfl
  · exact hput e.pool.device rfl
  · exact hput e.pool.device rfl
  · exact hput e.pool.device rfl
  · exact hput e.pool.device rfl
  · split
    · exact hput _ rfl
    · dsimp only
      split
      · exact ⟨.inr rfl, .of_eq rfl rfl rfl rfl⟩
      · exact hput _ rfl

theorem nextDownload_puts (e : Engine ν α) (t : SubmissionId) (ds : List (Download ν)) :
    e.Puts (fun x => x.carried? = some t) (e.nextDownload t ds) := by
  cases ds with
  | nil => exact .schedule e 2 rfl
  | cons d rest =>
    have hset : e.Puts (fun x => x.carried? = some t) (e.setDevice (e.pool.device.mapBuffer d.buffer).2) :=
      .of_eq rfl rfl rfl rfl
    exact hset.trans (.schedule _ 1 rfl)

theorem workDone_puts (e : Engine ν α) (s : Encoded ν) (o : Outcome) :
    e.Puts (fun x => x.carried? = some s.token) (e.workDone s o) := by
  unfold workDone
  split
  · exact .schedule e 1 rfl
  · split
    · exact .schedule e 1 rfl
    · split
      · exact .schedule e 1 rfl
      · exact .schedule e 1 rfl
      · exact nextDownload_puts e s.token _

theorem mapped_puts [Measure ν] [Channel α] [Stored α] (e : Engine ν α) (t : SubmissionId) (ds : List (Download ν))
    (o : Outcome) : e.Puts (fun x => x.carried? = some t) (e.mapped t ds o) := by
  have hset (device : Device ν α) : e.Puts (fun x => x.carried? = some t) (e.setDevice device) :=
    .of_eq rfl rfl rfl rfl
  have hfill (device device' : Device ν α) (a : HostArray) (values : Array α) :
      e.Puts (fun x => x.carried? = some t) (((e.setDevice device).fill a values).setDevice device') :=
    .of_eq rfl rfl rfl rfl
  unfold mapped
  split
  · exact .schedule e 1 rfl
  · exact nextDownload_puts e t []
  · split
    · exact (hset _).trans (.schedule _ 1 rfl)
    · dsimp only
      split
      · exact (hset _).trans (.schedule _ 1 rfl)
      · split
        · exact (hfill ..).trans (.schedule _ 1 rfl)
        · exact (hfill ..).trans (nextDownload_puts _ t _)

theorem finished_puts [Measure ν] (e : Engine ν α) (t : SubmissionId) (o : Outcome) :
    e.Puts (fun x => x.carried? = some t) (e.finished t o) := by
  have hfinish : e.Puts (fun x => x.carried? = some t) (e.finish t).2 := by
    unfold finish
    split <;> exact .of_eq rfl rfl rfl rfl
  unfold finished
  split
  all_goals
    rename_i heq
    rw [heq] at hfinish
  · exact hfinish.trans (.schedule _ 3 rfl)
  · exact hfinish.trans (.schedule _ 1 rfl)

theorem collected_puts (e : Engine ν α) (job : JobId) (t : SubmissionId) (o : Outcome)
    (hpass : ∀ c, e.call? job = some c → P (if c.signal.isSome then .drained job t o else .resumed job t o)) :
    e.Puts P (e.collected job t o) := by
  have hset : e.Puts P { e with completion := e.completion.collect t } := .of_eq rfl rfl rfl rfl
  exact hset.trans (pass_puts _ job t o hpass)

theorem drained_puts (e : Engine ν α) (job : JobId) (t : SubmissionId) (o : Outcome) :
    ({ e with listeners := e.listeners.filter fun l => l.2 != (job, t) } : Engine ν α).Puts
      (fun x => x = .resumed job t o ∧ ∃ l ∈ e.listeners, l.2 = (job, t)) (e.drained job t o) := by
  let e₁ : Engine ν α := { e with listeners := e.listeners.filter fun l => l.2 != (job, t) }
  have hput {e' : Engine ν α} (h : e₁.Puts (fun x => x = .resumed job t o ∧ ∃ l ∈ e.listeners, l.2 = (job, t)) e') :
      e₁.Puts (fun x => x = .resumed job t o ∧ ∃ l ∈ e.listeners, l.2 = (job, t))
        (if e.listeners.any (fun l => l.2 == (job, t)) then e'.schedule 1 (.resumed job t o) else e') := by
    split
    · rename_i hany
      obtain ⟨l, hl, heq⟩ := List.any_eq_true.mp hany
      exact h.trans (.schedule e' 1 ⟨rfl, l, hl, beq_iff_eq.mp heq⟩)
    · exact h
  unfold drained
  dsimp only
  refine hput ?_
  cases o with
  | ok u => exact .refl _
  | error failure =>
    dsimp only
    split
    · split <;> exact .of_eq rfl rfl rfl rfl
    · exact .refl _

/-! ## Turns and operations -/

variable [Measure ν] [Channel α] [Stored α] [Transfer α]

theorem submit_puts (e : Engine ν α) (plan : PlanId) :
    e.Puts (fun x => ∃ s, x = .scopesClosed s ∧ s.token = e.token) (e.submit plan).2 := by
  have hexecute (e' : Engine ν α) (token : SubmissionId) (p : Plan ν α) :
      e'.Puts (fun x => ∃ s, x = .scopesClosed s ∧ s.token = e.token) (e'.execute token plan p).2 ∧
        ∀ s, (e'.execute token plan p).1 = .ok s → s.token = token := by
    unfold execute
    split
    · exact ⟨.of_eq rfl rfl rfl rfl, fun s hs => by cases hs⟩
    · exact ⟨.of_eq rfl rfl rfl rfl, fun s hs => by cases hs; rfl⟩
  unfold submit
  split
  · exact .refl e
  · exact .refl e
  · rename_i rec _ _
    split
    · exact .refl e
    · dsimp only
      split
      · exact .of_eq rfl rfl rfl rfl
      · rename_i pool _
        have hbegun : e.Puts (fun x => ∃ s, x = .scopesClosed s ∧ s.token = e.token) (e.begun plan rec pool) :=
          .of_eq rfl rfl rfl rfl
        obtain ⟨hrun, htoken⟩ := hexecute (e.begun plan rec pool) e.token rec.plan
        unfold begun token at hrun htoken
        split
        all_goals
          rename_i heq
          rw [heq] at hrun htoken
        · exact hbegun.trans hrun
        · have hput := (hbegun.trans hrun).trans (.schedule _ 2 ⟨_, rfl, htoken _ rfl⟩)
          exact hput.trans (.of_eq rfl rfl rfl rfl)

/-- A call that goes on with its plan ends its attempt, or submits and waits. -/
theorem planned_puts (e : Engine ν α) (job : JobId) (hplain : ∀ x : Turn ν α, x.plain = true → P x)
    (hscopes : ∀ s, s.token = e.token → P (.scopesClosed s))
    (hpass : ∀ c, e.call? job = some c → ∀ t o,
      P (if c.signal.isSome then .drained job t o else .resumed job t o)) :
    ({ e with listeners := (e.planned job).listeners } : Engine ν α).Puts P (e.planned job) := by
  have hput {e' : Engine ν α} {listeners} (h : ({ e with listeners } : Engine ν α).Puts P e') :
      ({ e with listeners := e'.listeners } : Engine ν α).Puts P e' := ⟨h.turns, h.heldBack, rfl, h.signals⟩
  have hleave {e' : Engine ν α} (h : e.Puts P e') (owned : List Handle) (result : Except Failure (Raster ν α)) :
      e.Puts P (e'.leave job owned result) := h.trans ((leave_puts e' job owned result).mono hplain)
  unfold planned
  split
  · rename_i c hc
    split
    · exact hput (hleave (.refl e) _ _)
    · rename_i plan _
      split
      · exact hput (hleave (.refl e) _ _)
      · have hsubmit : e.Puts P (e.submit plan).2 :=
          (submit_puts e plan).mono fun x ⟨s, hs, ht⟩ => hs ▸ hscopes s ht
        have hjobs := (e.submit_kept plan).1
        split
        all_goals
          rename_i heq
          rw [heq] at hsubmit hjobs
        · exact hput (hleave hsubmit _ _)
        · rename_i token e'
          have hset : e.Puts P (e'.setCall job { c with phase := .draining plan token }) :=
            hsubmit.trans (.of_eq rfl rfl rfl rfl)
          have hwaits (listeners) : ({ e with listeners } : Engine ν α).Puts P
              (({ e'.setCall job { c with phase := .draining plan token } with listeners } : Engine ν α).waitFor
                job token) := by
            have hlisten : ({ e with listeners } : Engine ν α).Puts P
                { e'.setCall job { c with phase := .draining plan token } with listeners } :=
              ⟨hset.turns, hset.heldBack, rfl, hset.signals⟩
            refine hlisten.trans (waitFor_puts _ job token hplain fun c' hc' o => ?_)
            have hlt : job < e'.jobs.size := hjobs ▸ (Array.getElem?_eq_some_iff.mp (call?_eq.mp hc)).1
            have hself : _ = some c' :=
              (call?_setCall_self hlt { c with phase := .draining plan token }).symm.trans hc'
            cases hself
            exact hpass c hc token o
          dsimp only
          split
          · exact hput (hwaits _)
          · exact hput (hwaits e'.listeners)
    · exact .refl e
  · exact .refl e

theorem perform_puts (e : Engine ν α) {x : Turn ν α} (hx : x.relays = false) : e.PutsPlain (e.perform x) := by
  cases x with
  | buildUngated serial key => exact .schedule e 2 rfl
  | buildEnded serial result => exact buildEnded_puts e serial result
  | pipelineArrived job index result => exact pipelineArrived_puts e job index result
  | planReady job result => exact planReady_puts e job result
  | reported token outcome => exact reported_puts e token outcome
  | lossSeen reason message => exact lossSeen_puts e reason message
  | resumed job token outcome => exact resumed_puts e job token outcome
  | attemptEnded job result => exact attemptEnded_puts e job result
  | planned | scopesClosed | workDone | mapped | rejected | finished | collected | drained => cases hx

theorem apply_puts (e : Engine ν α) {op : Operation ν α} (hop : op.relays = false) :
    e.PutsPlain (e.apply op).2 := by
  unfold Engine.apply
  split
  · exact .refl e
  · cases op with
    | allocate | acquire | relinquish | release | invalidate | trim | closeArena | limitAllocation | resolve
      | contains | checkArena | read | supports | hasPipeline | output | checkUsable | config | clearPipelines
      | takePlan | makeArray | inject | fault | uncaptured | hold | gate | refuseBuilds =>
      exact .of_eq rfl rfl rfl rfl
    | lookUp key => exact lookupPipeline_puts e key
    | closePipelines closing => exact closePipelines_puts e closing
    | makePlan stack uploads => exact startPlan_puts e stack uploads
    | wait token => exact startWait_puts e token
    | destroy => exact destroy_puts e
    | composite layers options verifies => exact startComposite_puts e layers options verifies
    | configure change => exact configure_puts e change
    | lose message =>
      refine Attempt.andThen_keeps (P := fun e' : Engine ν α => e.PutsPlain e') (.of_eq rfl rfl rfl rfl)
        fun _ _ => ?_
      have hset : e.PutsPlain (e.onDeviceCall .lose id).2 := .of_eq rfl rfl rfl rfl
      exact hset.trans (lose_puts _ message)
    | openGate =>
      show e.PutsPlain (if e.pool.device.gates = 0 then (.error (.host .mistyped), e) else e.openGate.replyDone :
        Answered ν α).2
      split
      · exact .refl e
      · exact openGate_puts e
    | submit | newSignal | abort | unhold => cases hop

end Engine

end Strata
