import Strata.Proofs.Engine.Plans
import Strata.Proofs.Engine.Sending

/-!
# The answer of a plan

A plan is answered in one place only: where a call of its own goes on after the wait for its pipelines. All else
`Withholds` plans. So the move that answers one takes the turn in which it is made, and what is known of its call
(`Planned`) says what it is made of (`plan_answered`, `makePlan_answered`).
-/

namespace Strata

variable {ν α : Type}

namespace Engine

/-- No call answers a plan that it has not answered before. -/
def Withholds (e e' : Engine ν α) : Prop :=
  ∀ j id, (j, .ok (.plan id)) ∈ e'.settled → (j, .ok (.plan id)) ∈ e.settled

namespace Withholds

variable {e e' e'' : Engine ν α} {job : JobId}

theorem refl (e : Engine ν α) : e.Withholds e := fun _ _ h => h

theorem trans (h : e.Withholds e') (h' : e'.Withholds e'') : e.Withholds e'' := fun j id hm => h j id (h' j id hm)

theorem of_eq (h : e'.settled = e.settled) : e.Withholds e' := fun _ _ hm => h ▸ hm

theorem settle (e : Engine ν α) (job : JobId) {result : Except Failure (JobValue ν α)}
    (h : ∀ id, result ≠ .ok (.plan id)) : e.Withholds (e.settle job result) := by
  intro j id hm
  rcases List.mem_append.mp hm with hm | hm
  · exact hm
  · rw [List.mem_singleton] at hm
    cases hm
    exact absurd rfl (h id)

theorem fail (e : Engine ν α) (job : JobId) (failure : Failure) : e.Withholds (e.settle job (.error failure)) :=
  settle e job fun _ h => by cases h

theorem bystands (h : e.Bystands e') : e.Withholds e' := by
  obtain ⟨more, hmore, hvalues⟩ := h.settled
  intro j id hm
  rw [hmore] at hm
  rcases List.mem_append.mp hm with hm | hm
  · exact hm
  · cases (hvalues _ hm).2 _ rfl

theorem aside (h : e.Aside e') : e.Withholds e' := by
  obtain ⟨cache, device, turns, gated, rfl, -⟩ := h
  exact refl _

/-! ## Pipelines -/

theorem pipeline (e : Engine ν α) (job : JobId) (result : Except Failure Pipeline) :
    e.Withholds (e.settle job (result.map .pipeline)) :=
  settle e job fun id h => by cases result <;> cases h

theorem answerAll (e : Engine ν α) (answers : List (PipelineWaiter × Except Failure Pipeline)) :
    e.Withholds (e.answerAll answers) := by
  refine List.foldlRecOn (motive := fun e' : Engine ν α => e.Withholds e') _ _ (refl e) fun e' he' x _ => ?_
  obtain ⟨w, result⟩ := x
  refine he'.trans ?_
  cases w with
  | lookup job => exact pipeline e' job result
  | step job index => exact of_eq rfl

theorem lookupPipeline (e : Engine ν α) (key : PipelineKey) : e.Withholds (e.lookupPipeline key).2 := by
  have hadd : e.Withholds (e.addJob .lookup).2 := of_eq rfl
  have hrequest := hadd.trans (aside (Aside.requestPipeline (e.addJob .lookup).2 key (.lookup e.jobs.size)))
  unfold Engine.lookupPipeline
  rw [show (e.addJob .lookup : JobId × Engine ν α) = (e.jobs.size, (e.addJob .lookup).2) from rfl]
  dsimp only
  generalize (e.addJob .lookup).2.requestPipeline key (.lookup e.jobs.size) = r at hrequest
  obtain ⟨reply, e'⟩ := r
  cases reply with
  | none => exact hrequest
  | some result => exact hrequest.trans (pipeline e' e.jobs.size result)

theorem buildEnded (e : Engine ν α) (serial : Nat) (result : Except Failure Artifact) :
    e.Withholds (e.buildEnded serial result) := by
  unfold Engine.buildEnded
  generalize e.cache.finish serial result = r
  obtain ⟨⟨answers, warning⟩, cache⟩ := r
  refine trans (of_eq ?_) (answerAll _ answers)
  cases warning <;> rfl

theorem closePipelines (e : Engine ν α) (closing : Closing) : e.Withholds (e.closePipelines closing) := by
  have hset : e.Withholds { e with cache := (e.cache.close closing).2 } := of_eq rfl
  exact hset.trans (answerAll _ _)

theorem openGate (e : Engine ν α) : e.Withholds e.openGate := by
  unfold Engine.openGate
  exact List.foldlRecOn (motive := fun e' : Engine ν α => e.Withholds e') _ _ (of_eq rfl)
    fun e' he' x _ => he'.trans (of_eq rfl)

/-! ## Plans -/

theorem setPlanning (e : Engine ν α) (job : JobId) (p : Planning ν α) : e.Withholds (e.setPlanning job p) := by
  unfold Engine.setPlanning
  split <;> exact of_eq rfl

theorem pipelineArrived (e : Engine ν α) (job : JobId) (index : Nat) (result : Except Failure Pipeline) :
    e.Withholds (e.pipelineArrived job index result) := by
  unfold Engine.pipelineArrived
  split
  · exact refl e
  · split
    · exact refl e
    · split
      · exact (setPlanning e job _).trans (of_eq rfl)
      · dsimp only
        split
        · exact (setPlanning e job _).trans (of_eq rfl)
        · exact setPlanning e job _

theorem planFailed (e : Engine ν α) (job : JobId) (failure : Failure) :
    e.Withholds (e.planMade job (.error failure)) := by
  unfold Engine.planMade
  split
  · exact fail e job failure
  · exact of_eq rfl
  · exact refl e

section
variable [Measure ν]

theorem startPlan (e : Engine ν α) (stack : List (BlendDescriptor ν α)) (uploads : List (Upload α)) :
    e.Withholds (e.startPlan stack uploads).2 := by
  have hadd : e.Withholds (e.addJob .lookup).2 := of_eq rfl
  have hbegin := hadd.trans (aside (Aside.beginPlanning (e.addJob .lookup).2 e.jobs.size stack uploads))
  unfold Engine.startPlan
  rw [show (e.addJob .lookup : JobId × Engine ν α) = (e.jobs.size, (e.addJob .lookup).2) from rfl]
  dsimp only
  generalize (e.addJob .lookup).2.beginPlanning e.jobs.size stack uploads = r at hbegin
  obtain ⟨r, e'⟩ := r
  cases r with
  | error failure => exact hbegin.trans (fail e' e.jobs.size failure)
  | ok p => exact hbegin.trans (of_eq rfl)

/-! ## Composite calls -/

theorem leave (e : Engine ν α) (job : JobId) (owned : List Handle) (result : Except Failure (Raster ν α)) :
    e.Withholds (e.leave job owned result) := by
  unfold Engine.leave
  split
  · exact refl e
  · exact of_eq rfl

variable [Channel α]

theorem planAttempt (e : Engine ν α) (job : JobId) (c : CompositeCall ν α) (destination : Handle)
    (sources : List Handle) : e.Withholds (e.planAttempt job c destination sources) := by
  unfold Engine.planAttempt
  dsimp only
  split
  · exact trans (of_eq rfl) (leave _ job [] _)
  · rename_i stack _
    have hbegin := aside (Aside.beginPlanning e job stack (uploadsOf c.layers sources))
    split
    all_goals
      rename_i heq
      rw [heq] at hbegin
      exact hbegin.trans (of_eq rfl)

theorem startAttempt (e : Engine ν α) (job : JobId) (c : CompositeCall ν α) :
    e.Withholds (e.startAttempt job c) := by
  unfold Engine.startAttempt
  split
  · exact of_eq rfl
  · exact of_eq rfl
  · split
    · exact trans (of_eq rfl) (leave _ job [] _)
    · dsimp only
      split
      · exact trans (of_eq rfl) (leave _ job [] _)
      · exact trans (of_eq rfl) (planAttempt _ job c _ _)

theorem startComposite (e : Engine ν α) (layers options : Value α) (verifies : Bool) :
    e.Withholds (e.startComposite layers options verifies).2 := by
  have hadd : e.Withholds (e.addJob .lookup).2 := of_eq rfl
  unfold Engine.startComposite
  rw [show (e.addJob .lookup : JobId × Engine ν α) = (e.jobs.size, (e.addJob .lookup).2) from rfl]
  dsimp only
  split
  · exact hadd.trans (fail _ _ _)
  · exact hadd.trans (fail _ _ _)
  · split
    · exact hadd.trans (fail _ _ _)
    · exact hadd.trans (startAttempt _ _ _)

omit [Measure ν] in
theorem configure (e : Engine ν α) (change : Value α) : e.Withholds (e.configure change).2 := by
  unfold Engine.configure
  split <;> exact of_eq rfl

variable [Stored α] [Transfer α]

theorem planned (e : Engine ν α) (job : JobId) : e.Withholds (e.planned job) := by
  unfold Engine.planned
  split
  · rename_i c _
    split
    · exact leave e job [] _
    · rename_i plan _
      split
      · exact leave e job _ _
      · have hsubmit := bystands (submit_bystands e plan)
        split
        all_goals
          rename_i heq
          rw [heq] at hsubmit
        · exact hsubmit.trans (leave _ job _ _)
        · rename_i token e'
          have hwait {e'' : Engine ν α} (h : e''.settled = e'.settled) : e.Withholds (e''.waitFor job token) :=
            (hsubmit.trans (of_eq h)).trans (bystands (waitFor_bystands e'' job token))
          dsimp only
          split <;> exact hwait rfl
    · exact refl e
  · exact refl e

theorem resumed (e : Engine ν α) (job : JobId) (token : SubmissionId) (outcome : Outcome) :
    e.Withholds (e.resumed job token outcome) := by
  unfold Engine.resumed
  split
  · split
    · split
      · exact leave e job _ _
      · exact refl e
    · exact refl e
  · exact refl e

theorem answerOf_ne (e : Engine ν α) (c : CompositeCall ν α) (raster : Raster ν α) (id : PlanId) :
    e.answerOf c raster ≠ .ok (.plan id) := by
  unfold Engine.answerOf
  split
  · cases Direct.composite c.layers (some raster.format) with
    | error failure => nofun
    | ok host =>
      simp only [bind, Except.bind]
      cases raster.compare host e.config.tolerance <;> nofun
  · nofun

theorem attemptEnded (e : Engine ν α) (job : JobId) (result : Except Failure (Raster ν α)) :
    e.Withholds (e.attemptEnded job result) := by
  unfold Engine.attemptEnded
  split
  · exact refl e
  · rename_i c raster _
    dsimp only
    split
    · have hreport (entry : LogEntry) : e.Withholds (e.report entry) := of_eq rfl
      exact (hreport _).trans (settle _ job (answerOf_ne _ c raster))
    · exact settle _ job (answerOf_ne _ c raster)
  · dsimp only
    split
    · split
      · exact trans (of_eq rfl) (startAttempt _ job _)
      · exact trans (of_eq rfl) (fail _ job _)
    · exact fail e job _

end

/-! ## The end of a session -/

theorem shutDown (e : Engine ν α) (closing : Closing) : e.Withholds (e.shutDown closing).2 := by
  have hpool : e.Withholds { e with pool := (e.pool.close closing).2 } := of_eq rfl
  refine Attempt.andThen_keeps (P := fun e' : Engine ν α => e.Withholds e') hpool fun _ _ => ?_
  exact (hpool.trans (closePipelines _ closing)).trans (of_eq rfl)

variable [Measure ν]

theorem destroy (e : Engine ν α) : e.Withholds e.destroy.2 := by
  unfold Engine.destroy
  split
  · exact refl e
  · have hphase : e.Withholds { e with session := { e.session with phase := .destroyed } } := of_eq rfl
    have habandon := hphase.trans (bystands (abandonPending_bystands _ (.of (.sessionDestroyed .deviceLost))))
    refine Attempt.andThen_keeps (P := fun e' : Engine ν α => e.Withholds e') habandon fun _ _ => ?_
    exact (habandon.trans (bystands (discardUnawaited_bystands _))).trans (shutDown _ _)

theorem lossSeen (e : Engine ν α) (reason message : String) : e.Withholds (e.lossSeen reason message) := by
  unfold Engine.lossSeen
  split
  · exact refl e
  · have hphase : e.Withholds { e.report (.deviceLost reason message) with
        session := { e.session with phase := .lost } } := of_eq rfl
    have habandon := hphase.trans (bystands (abandonPending_bystands _ (.of (.deviceLostBecause reason message))))
    refine Attempt.andThen_keeps (P := fun e' : Engine ν α => e.Withholds e') habandon fun _ _ => ?_
    exact habandon.trans (shutDown _ _)

/-! ## Turns and operations -/

variable [Channel α] [Stored α] [Transfer α]

theorem perform (e : Engine ν α) {t : Turn ν α} (ht : ∀ j pipelines, t ≠ .planReady j (.ok pipelines)) :
    e.Withholds (e.perform t) := by
  cases t with
  | buildUngated | rejected => exact of_eq rfl
  | buildEnded serial result => exact buildEnded e serial result
  | pipelineArrived job index result => exact pipelineArrived e job index result
  | planReady job result =>
    cases result with
    | ok pipelines => exact absurd rfl (ht job pipelines)
    | error failure =>
      show e.Withholds (e.planReady job (.error failure))
      unfold Engine.planReady
      split
      · exact refl e
      · exact planFailed e job _
      · rename_i h
        cases h
  | planned job => exact planned e job
  | scopesClosed s => exact bystands (scopesClosed_bystands e s)
  | workDone s outcome => exact bystands (workDone_bystands e s outcome)
  | mapped token downloads outcome => exact bystands (mapped_bystands e token downloads outcome)
  | finished token outcome => exact bystands (finished_bystands e token outcome)
  | reported token outcome => exact bystands (reported_bystands e token outcome)
  | lossSeen reason message => exact lossSeen e reason message
  | collected job token outcome => exact bystands (collected_bystands e job token outcome)
  | drained job token outcome => exact bystands (drained_bystands e job token outcome)
  | resumed job token outcome => exact resumed e job token outcome
  | attemptEnded job result => exact attemptEnded e job result

theorem carryOut (e : Engine ν α) (op : Operation ν α) : e.Withholds (e.carryOut op).2 := by
  cases op with
  | allocate | acquire | relinquish | release | invalidate | trim | closeArena | limitAllocation | resolve
    | contains | checkArena | read | supports | hasPipeline | output | checkUsable | config | newSignal | inject
    | fault | uncaptured | hold | gate | refuseBuilds | clearPipelines | takePlan | makeArray => exact of_eq rfl
  | lookUp key => exact lookupPipeline e key
  | closePipelines closing => exact closePipelines e closing
  | makePlan stack uploads => exact startPlan e stack uploads
  | submit plan => exact bystands (submit_bystands e plan)
  | wait token => exact bystands (startWait_bystands e token)
  | destroy => exact destroy e
  | composite layers options verifies => exact startComposite e layers options verifies
  | configure change => exact configure e change
  | abort signal reason => exact bystands (abort_bystands e signal reason)
  | lose message =>
    have hcall : e.Withholds (e.onDeviceCall .lose id).2 := of_eq rfl
    refine Attempt.andThen_keeps (P := fun e' : Engine ν α => e.Withholds e') hcall fun _ _ => ?_
    exact hcall.trans (bystands (lose_bystands _ message))
  | unhold =>
    have hcall : e.Withholds (e.onDeviceCall .unhold id).2 := of_eq rfl
    refine Attempt.andThen_keeps (P := fun e' : Engine ν α => e.Withholds e') hcall fun _ _ => ?_
    exact hcall.trans (bystands (unhold_bystands _))
  | openGate =>
    show e.Withholds (if e.pool.device.gates = 0 then (.error (.host .mistyped), e) else e.openGate.replyDone :
      Answered ν α).2
    split
    · exact refl e
    · exact openGate e

theorem apply (e : Engine ν α) (op : Operation ν α) : e.Withholds (e.apply op).2 := by
  unfold Engine.apply
  split
  · exact refl e
  · exact carryOut e op

end Withholds

/-! ## Where plans are answered -/

variable [Measure ν] [Channel α] [Stored α] [Transfer α] {D : Drafts ν α} {e : Engine ν α}

omit [Transfer α] in
theorem planReady_answers {job j : JobId} {pipelines : List Pipeline} {id : PlanId}
    (hold : (j, .ok (.plan id)) ∉ e.settled) (h : (j, .ok (.plan id)) ∈ (e.planReady job (.ok pipelines)).settled) :
    j = job ∧ ∃ (p : Planning ν α) (rec : PlanRecord ν α), e.jobs[j]? = some (.plan p) ∧
      p.draft.emit pipelines e.pool = (.ok rec.plan, (e.planReady job (.ok pipelines)).pool) ∧
      (e.planReady job (.ok pipelines)).plans[id]? = some rec := by
  unfold planReady at h ⊢
  cases hp : e.planning? job with
  | none =>
    rw [hp] at h
    exact absurd h hold
  | some p =>
    rw [hp] at h
    dsimp only at h ⊢
    generalize hemit : p.draft.emit pipelines e.pool = r at h ⊢
    obtain ⟨r, pool⟩ := r
    cases r with
    | error failure => exact absurd (Withholds.planFailed _ job failure j id h) hold
    | ok plan =>
      dsimp only at h ⊢
      unfold planMade at h ⊢
      unfold planning? at hp
      cases hjob : e.jobs[job]? with
      | none =>
        rw [hjob] at hp
        cases hp
      | some kind =>
        have hjob' : (({ e with pool } : Engine ν α).addPlan plan).2.jobs[job]? = some kind := hjob
        rw [hjob'] at h ⊢
        rw [hjob] at hp
        cases kind with
        | lookup | wait => cases hp
        | composite c => exact absurd h hold
        | plan q =>
          cases hp
          rcases List.mem_append.mp h with h | h
          · exact absurd h hold
          · rw [List.mem_singleton] at h
            cases h
            exact ⟨rfl, p, ⟨plan, #[]⟩, hjob, hemit, Array.getElem?_push_size⟩

/-- The move makes a plan, and answers a call with it. -/
def MakesPlan (e : Engine ν α) (m : Move ν α) (j : JobId) (id : PlanId) : Prop :=
  (j, .ok (.plan id)) ∉ e.settled ∧ (j, .ok (.plan id)) ∈ (e.move m).settled

theorem makesPlan_of_first {e : Engine ν α} {m : Move ν α} {j : JobId} {id : PlanId}
    (hnone : e.settled.isEmpty = true) (h : (e.move m).answersPlan j id = true) : e.MakesPlan m j id := by
  refine ⟨fun hmem => ?_, mem_of_answersPlan h⟩
  rw [List.isEmpty_iff] at hnone
  rw [hnone] at hmem
  exact absurd hmem List.not_mem_nil

/-- A plan is answered as its draft is emitted, with the pipelines of its steps and over the pool of that moment. -/
theorem plan_answered (he : e.Planned D) {m : Move ν α} {j : JobId} {id : PlanId} (h : e.MakesPlan m j id) :
    ∃ d pipelines rec, D j = some d ∧ d.1.Supplied pipelines ∧
      d.1.emit pipelines e.pool = (.ok rec.plan, (e.move m).pool) ∧ (e.move m).plans[id]? = some rec := by
  obtain ⟨hold, hnow⟩ := h
  rcases e.move_cases m with ⟨op, rfl⟩ | ⟨t, delay, rest, -, hp, heq⟩ | ⟨-, turns, -, heq⟩
  · exact absurd (Withholds.apply e op j id hnow) hold
  · rw [heq] at hnow ⊢
    by_cases ht : ∀ i pipelines, t ≠ .planReady i (.ok pipelines)
    · exact absurd (Withholds.perform _ ht j id hnow) hold
    · simp only [not_forall, not_not] at ht
      obtain ⟨i, pipelines, rfl⟩ := ht
      obtain ⟨rfl, p, rec, hjob, hemit, hrec⟩ := @planReady_answers _ _ _ _ _ { e with turns := rest } i j
          pipelines id hold hnow
      obtain ⟨d, hd, hgathers⟩ := he.prepares.jobs _ _ hjob
      have hfits := he.prepares.turns _ (hp.mem_iff.mpr (List.mem_cons_self ..))
      rw [hgathers.of] at hemit
      exact ⟨d, pipelines, rec, hd, hfits.2 d pipelines hd rfl, hemit, hrec⟩
  · rw [heq] at hnow
    exact absurd hnow hold

/-- What a call for a plan is at, whatever happens after it was made: its entry is what its stack was checked as. -/
theorem makePlan_planned {start : Engine ν α} (hstart : start.Opened) (moves moves' : List (Move ν α))
    (stack : List (BlendDescriptor ν α)) (uploads : List (Upload α)) :
    let e := start.run moves
    let before := (e.move (.call (.makePlan stack uploads))).run moves'
    ∃ D, before.Planned D ∧ ∀ d, D e.jobs.size = some d → d.2 = e.pool.arena ∧
      Draft.check e.pool.arena e.capabilities e.cache.library stack uploads = .ok d.1 := by
  intro e before
  obtain ⟨D, -, he, -⟩ := run_planned hstart.planned moves
  obtain ⟨D₁, -, h₁, -, hnew⟩ := move_planned he (.call (.makePlan stack uploads))
  obtain ⟨D', hold, h', -⟩ := run_planned h₁ moves'
  refine ⟨D', h', fun d hd => ?_⟩
  rw [hold _ (startPlan_size e stack uploads)] at hd
  obtain ⟨harena, stack', uploads', hcall, hcheck⟩ := hnew _ d (Nat.le_refl _) hd
  cases hcall
  exact ⟨harena, hcheck⟩

/-- What a call for a plan is answered with: the stack was checked when it was made, the plan is emitted at the
answer. -/
theorem makePlan_answered {start : Engine ν α} (hstart : start.Opened) (moves moves' : List (Move ν α))
    (stack : List (BlendDescriptor ν α)) (uploads : List (Upload α)) (m : Move ν α) (id : PlanId) :
    let e := start.run moves
    let before := (e.move (.call (.makePlan stack uploads))).run moves'
    before.MakesPlan m e.jobs.size id → ∃ draft pipelines rec,
      Draft.check e.pool.arena e.capabilities e.cache.library stack uploads = .ok draft ∧ draft.Supplied pipelines ∧
      before.pool.Sound ∧ e.pool.arena.Later before.pool.arena ∧
      draft.emit pipelines before.pool = (.ok rec.plan, (before.move m).pool) ∧
        (before.move m).plans[id]? = some rec := by
  intro e before hanswers
  obtain ⟨D, h, hentry⟩ := makePlan_planned hstart moves moves' stack uploads
  obtain ⟨d, pipelines, rec, hd, hsupplied, hemit, hrec⟩ := plan_answered h hanswers
  obtain ⟨harena, hcheck⟩ := hentry d hd
  exact ⟨d.1, pipelines, rec, hcheck, hsupplied, h.able.pool.sound, harena ▸ h.later _ d hd, hemit, hrec⟩

theorem plan_refused (he : e.Planned D) {m : Move ν α} {j : JobId} {p : Planning ν α} {pipelines : List Pipeline}
    {failure : Failure} {d : Draft ν α × Arena ν} (hj : e.jobs[j]? = some (.plan p)) (hd : D j = some d)
    (hm : e.Takes m (.planReady j (.ok pipelines))) (hemit : (d.1.emit pipelines e.pool).1 = .error failure) :
    (j, .error failure) ∈ (e.move m).settled := by
  rcases e.move_cases m with ⟨op, rfl⟩ | ⟨t, delay, rest, ht, -, heq⟩ | ⟨hnone, -⟩
  · exact hm.elim
  · obtain rfl := Takes.unique hm ht
    obtain ⟨d', hd', hgathers⟩ : Stands D j (.plan p) := he.prepares.jobs j _ hj
    rw [hd] at hd'
    cases hd'
    rw [heq]
    show _ ∈ (planReady { e with turns := rest } j (.ok pipelines)).settled
    unfold planReady
    have hp : ({ e with turns := rest } : Engine ν α).planning? j = some p := by
      unfold planning?
      dsimp only
      rw [hj]
    rw [hp]
    dsimp only
    rw [hgathers.of]
    generalize d.1.emit pipelines e.pool = r at hemit
    obtain ⟨r, pool⟩ := r
    cases hemit
    show _ ∈ (planMade { e with turns := rest, pool } j (.error failure)).settled
    unfold planMade
    dsimp only
    rw [hj]
    exact List.mem_append_right _ (List.mem_singleton_self _)
  · exact absurd hm (hnone _)

end Engine

end Strata
