import Strata.Proofs.Engine.Tokens

/-!
# Who submits

A plan is submitted by hand, or when a composite call goes on with the plan it made. No other move hands out a token
(`move_next`), and whoever submits gets the next one.
-/

namespace Strata.Engine

variable {ν α : Type} {e e' : Engine ν α} {m : Move ν α} {t : SubmissionId} {job : JobId} {plan : PlanId}

/-! ## What no token is handed out by -/

theorem pass_session (e : Engine ν α) (job : JobId) (t : SubmissionId) (o : Outcome) :
    (e.pass job t o).session = e.session := by
  unfold pass
  split <;> rfl

theorem waitFor_session (e : Engine ν α) (job : JobId) (t : SubmissionId) :
    (e.waitFor job t).session = if e.session.phase = .destroyed then e.session
      else { e.session with unawaited := e.session.unawaited.erase t } := by
  unfold waitFor
  by_cases hd : e.session.phase = .destroyed
  · rw [if_pos hd, if_pos hd, pass_session]
  · rw [if_neg hd, if_neg hd]
    by_cases hu : t ∈ e.session.unawaited
    · rw [if_neg (not_not.mpr hu)]
      dsimp only
      generalize e.completion.wait t job = r
      obtain ⟨reply, completion⟩ := r
      cases reply with
      | now o => exact pass_session ..
      | later o => rfl
      | suspended => rfl
    · rw [if_pos hu, pass_session, List.erase_of_not_mem hu]

theorem waitFor_next (e : Engine ν α) (job : JobId) (t : SubmissionId) :
    (e.waitFor job t).session.nextToken = e.session.nextToken := by
  rw [waitFor_session]
  split <;> rfl

theorem scopesClosed_session (e : Engine ν α) (s : Encoded ν) : (e.scopesClosed s).session = e.session := by
  unfold scopesClosed
  split
  · rfl
  · rfl
  · rfl
  · rfl
  · rfl
  · split
    · rfl
    · dsimp only
      split <;> rfl

theorem nextDownload_session (e : Engine ν α) (t : SubmissionId) (ds : List (Download ν)) :
    (e.nextDownload t ds).session = e.session := by
  cases ds <;> rfl

theorem workDone_session (e : Engine ν α) (s : Encoded ν) (o : Outcome) : (e.workDone s o).session = e.session := by
  unfold workDone
  split
  · rfl
  · split
    · rfl
    · split
      · rfl
      · rfl
      · exact nextDownload_session ..

theorem discardUnawaited_session (e : Engine ν α) :
    e.discardUnawaited.session = { e.session with unawaited := [] } := by
  have hsame (tokens : List SubmissionId) :
      (tokens.foldl (fun (e : Engine ν α) token =>
        { e with completion := (e.completion.discard token).2 }.wake token
          (e.completion.discard token).1) e).session =
        e.session :=
    List.foldlRecOn tokens _ (motive := fun e' : Engine ν α => e'.session = e.session) rfl fun e' h t _ =>
      (wake_session ..).trans h
  exact congrArg (fun session : Session => { session with unawaited := [] }) (hsame e.session.unawaited)

theorem closePipelines_session (e : Engine ν α) (closing : Closing) :
    (e.closePipelines closing).session = e.session := by
  unfold closePipelines answerAll
  refine List.foldlRecOn (motive := fun e' : Engine ν α => e'.session = e.session) _ _ rfl fun e' h x _ => ?_
  obtain ⟨waiter, result⟩ := x
  cases waiter <;> exact h

section
variable [Measure ν]

theorem Chores.session (h : e.Chores e') : e'.session = e.session := by
  induction h with
  | refl => rfl
  | tail _ h ih => cases h <;> exact ih

theorem finish_next (e : Engine ν α) (t : SubmissionId) :
    (e.finish t).2.session.nextToken = e.session.nextToken := by
  unfold finish
  split <;> rfl

theorem finished_next (e : Engine ν α) (t : SubmissionId) (o : Outcome) :
    (e.finished t o).session.nextToken = e.session.nextToken := by
  have hfinish := finish_next e t
  unfold finished
  split
  all_goals
    rename_i heq
    rw [heq] at hfinish
    exact hfinish

theorem abandonPending_session (e : Engine ν α) (failure : Failure) :
    ∃ pending, (e.abandonPending failure).2.session = { e.session with pending } := by
  refine Attempt.each_keeps (P := fun e' : Engine ν α => ∃ pending, e'.session = { e.session with pending })
    (fun e' he' t _ => ?_) ⟨e.session.pending, rfl⟩
  have hfinish : ∃ pending, (e'.finish t).2.session = { e.session with pending } := by
    obtain ⟨pending, heq⟩ := he'
    unfold finish
    split
    · exact ⟨pending, heq⟩
    · exact ⟨_, congrArg
        (fun session : Session => { session with pending := e'.session.pending.filter (·.1 != t) }) heq⟩
  refine Attempt.andThen_keeps (P := fun e' : Engine ν α => ∃ pending, e'.session = { e.session with pending })
    hfinish fun _ _ => ?_
  obtain ⟨pending, heq⟩ := hfinish
  exact ⟨pending, (wake_session ..).trans heq⟩

omit [Measure ν] in
theorem shutDown_session (e : Engine ν α) (closing : Closing) : (e.shutDown closing).2.session = e.session := by
  refine Attempt.andThen_keeps (P := fun e' : Engine ν α => e'.session = e.session) rfl fun _ _ => ?_
  exact closePipelines_session _ closing

/-- A session is torn down for good, and loses nothing but what was pending or not waited for. -/
theorem destroy_session (e : Engine ν α) : e.destroy.2.session.phase = .destroyed ∧
    e.destroy.2.session.nextToken = e.session.nextToken := by
  unfold destroy
  split
  · rename_i hd
    exact ⟨hd, rfl⟩
  · let destroyed : Engine ν α := { e with session := { e.session with phase := .destroyed } }
    obtain ⟨pending, heq⟩ := abandonPending_session destroyed (.of (.sessionDestroyed .deviceLost))
    have habandon : (destroyed.abandonPending (.of (.sessionDestroyed .deviceLost))).2.session.phase = .destroyed ∧
        (destroyed.abandonPending (.of (.sessionDestroyed .deviceLost))).2.session.nextToken =
          e.session.nextToken := by
      rw [heq]
      exact ⟨rfl, rfl⟩
    refine Attempt.andThen_keeps (P := fun e' : Engine ν α => e'.session.phase = .destroyed ∧
      e'.session.nextToken = e.session.nextToken) habandon fun _ _ => ?_
    rw [shutDown_session, discardUnawaited_session]
    exact habandon

theorem lossSeen_session (e : Engine ν α) (reason message : String) :
    (e.lossSeen reason message).session.phase ≠ .ready ∧
      (e.lossSeen reason message).session.nextToken = e.session.nextToken := by
  unfold lossSeen
  split
  · rename_i hd
    exact ⟨fun hr => (by cases hd.symm.trans hr), rfl⟩
  · let lost : Engine ν α :=
        { e.report (.deviceLost reason message) with session := { e.session with phase := .lost } }
    obtain ⟨pending, heq⟩ := abandonPending_session lost (.of (.deviceLostBecause reason message))
    have habandon : (lost.abandonPending (.of (.deviceLostBecause reason message))).2.session.phase ≠ .ready ∧
        (lost.abandonPending (.of (.deviceLostBecause reason message))).2.session.nextToken =
          e.session.nextToken := by
      rw [heq]
      exact ⟨nofun, rfl⟩
    refine Attempt.andThen_keeps (P := fun e' : Engine ν α => e'.session.phase ≠ .ready ∧
      e'.session.nextToken = e.session.nextToken) habandon fun _ _ => ?_
    rw [shutDown_session]
    exact habandon

section
variable [Channel α] [Stored α]

theorem mapped_session (e : Engine ν α) (t : SubmissionId) (ds : List (Download ν)) (o : Outcome) :
    (e.mapped t ds o).session = e.session := by
  unfold mapped
  split
  · rfl
  · rfl
  · split
    · rfl
    · dsimp only
      split
      · rfl
      · split
        · rfl
        · exact nextDownload_session ..

variable [Transfer α]

theorem submit_next (e : Engine ν α) (plan : PlanId) : (e.submit plan).2.session.nextToken = e.session.nextToken ∨
    (e.submit plan).2.session.nextToken = e.session.nextToken + 1 := by
  rcases e.submit_cases plan with heq | ⟨rec, failure, pool, -, -, heq⟩ |
    ⟨rec, pool, device, turns, completion, -, -, -, -, heq⟩
  all_goals rw [heq]
  · exact .inl rfl
  · exact .inl rfl
  · exact .inr rfl

theorem planned_next (e : Engine ν α) (job : JobId) : (e.planned job).session.nextToken = e.session.nextToken ∨
    (e.planned job).session.nextToken = e.session.nextToken + 1 := by
  have hleave (e' : Engine ν α) (owned : List Handle) (result : Except Failure (Raster ν α)) :
      (e'.leave job owned result).session = e'.session := (leave_chores e' job owned result).session
  unfold planned
  split
  · split
    · exact .inl (congrArg _ (hleave ..))
    · split
      · exact .inl (congrArg _ (hleave ..))
      · rename_i plan _ _ _
        have hsubmit := submit_next e plan
        split
        all_goals
          rename_i heq
          rw [heq] at hsubmit
        · rw [hleave]
          exact hsubmit
        · rw [waitFor_next]
          split <;> exact hsubmit
    · exact .inl rfl
  · exact .inl rfl

/-- Few turns change the session: a plan is submitted, a submission has finished, or the device is lost. -/
theorem perform_session {x : Turn ν α} (hplanned : ∀ job, x ≠ .planned job) (hfinished : ∀ t o, x ≠ .finished t o)
    (hloss : x.isLoss = false) (hs : e.Sorted) : (e.perform x).session = e.session := by
  cases x with
  | planned job => exact absurd rfl (hplanned job)
  | finished t o => exact absurd rfl (hfinished t o)
  | lossSeen reason message => cases hloss
  | buildUngated serial key => exact (buildUngated_chores e serial key).session
  | buildEnded serial result => exact (buildEnded_chores hs serial result).session
  | pipelineArrived job index result => exact (pipelineArrived_chores e job index result).session
  | planReady job result => exact (planReady_chores e job result).session
  | scopesClosed s => exact scopesClosed_session e s
  | workDone s o => exact workDone_session e s o
  | mapped t ds o => exact mapped_session e t ds o
  | rejected => rfl
  | reported t o => exact wake_session ..
  | collected job t o => exact pass_session ..
  | drained job t o => exact (drained_chores e job t o).session
  | resumed job t o => exact (resumed_chores e job t o).session
  | attemptEnded job result => exact (attemptEnded_chores e job result).session

/-- A turn hands out no token, but that with which a call goes on with its plan. -/
theorem perform_next {x : Turn ν α} (hx : ∀ job, x ≠ .planned job) (hs : e.Sorted) :
    (e.perform x).session.nextToken = e.session.nextToken := by
  cases x with
  | finished t o => exact finished_next e t o
  | lossSeen reason message => exact (lossSeen_session e reason message).2
  | buildUngated | buildEnded | pipelineArrived | planReady | planned | scopesClosed | workDone | mapped | rejected
    | reported | collected | drained | resumed | attemptEnded =>
    exact congrArg _ (perform_session hx (fun _ _ h => by cases h) rfl hs)

/-- Few operations change the session: a plan is submitted or waited for, or the session is destroyed. -/
theorem carryOut_session {op : Operation ν α} (hsubmit : ∀ plan, op ≠ .submit plan) (hwait : ∀ t, op ≠ .wait t)
    (hdestroy : op ≠ .destroy) : (e.carryOut op).2.session = e.session := by
  cases op with
  | submit plan => exact absurd rfl (hsubmit plan)
  | wait token => exact absurd rfl (hwait token)
  | destroy => exact absurd rfl hdestroy
  | allocate | acquire | relinquish | release | invalidate | trim | closeArena | limitAllocation | resolve
    | contains | checkArena | read | supports | hasPipeline | output | checkUsable | config | clearPipelines
    | takePlan | makeArray | newSignal | inject | fault | uncaptured | hold | gate | refuseBuilds => rfl
  | lookUp key => exact (lookupPipeline_chores e key).session
  | closePipelines closing => exact closePipelines_session e closing
  | makePlan stack uploads => exact (startPlan_chores e stack uploads).session
  | composite layers options verifies => exact (startComposite_chores e layers options verifies).session
  | configure change => exact (configure_chores e change).session
  | abort signal reason => exact (abort_chores e signal reason).session
  | lose message =>
    refine Attempt.andThen_keeps (P := fun e' : Engine ν α => e'.session = e.session) rfl fun _ _ => ?_
    exact (lose_chores _ message).session
  | unhold =>
    refine Attempt.andThen_keeps (P := fun e' : Engine ν α => e'.session = e.session) rfl fun _ _ => ?_
    exact List.foldlRecOn (motive := fun e' : Engine ν α => e'.session = e.session) _ _ rfl fun e' h s _ => h
  | openGate =>
    show (if e.pool.device.gates = 0 then (.error (.host .mistyped), e) else e.openGate.replyDone :
      Answered ν α).2.session = _
    split
    · rfl
    · exact (openGate_chores e).session

theorem carryOut_next {op : Operation ν α} (hop : ∀ plan, op ≠ .submit plan) :
    (e.carryOut op).2.session.nextToken = e.session.nextToken := by
  by_cases hwait : ∃ t, op = .wait t
  · obtain ⟨t, rfl⟩ := hwait
    exact waitFor_next ..
  · by_cases hdestroy : op = .destroy
    · rw [hdestroy]
      exact (destroy_session e).2
    · exact congrArg _ (carryOut_session hop (fun t h => hwait ⟨t, h⟩) hdestroy)

end

end

/-! ## Moves -/

variable [Measure ν] [Channel α] [Stored α] [Transfer α]

theorem move_next (hs : e.Sorted) (m : Move ν α) : (e.move m).session.nextToken = e.session.nextToken ∨
    (e.move m).session.nextToken = e.session.nextToken + 1 ∧
      ((∃ plan, m = .call (.submit plan)) ∨ ∃ job, e.Takes m (.planned job)) := by
  rcases e.move_cases m with ⟨op, rfl⟩ | ⟨x, delay, rest, htakes, -, heq⟩ | ⟨-, turns, -, heq⟩
  · show (e.apply op).2.session.nextToken = _ ∨ (e.apply op).2.session.nextToken = _ ∧ _
    unfold Engine.apply
    split
    · exact .inl rfl
    · by_cases hop : ∃ plan, op = .submit plan
      · obtain ⟨plan, rfl⟩ := hop
        exact (submit_next e plan).imp_right fun h => ⟨h, .inl ⟨plan, rfl⟩⟩
      · exact .inl (carryOut_next fun plan h => hop ⟨plan, h⟩)
  · rw [heq]
    by_cases hx : ∃ job, x = .planned job
    · obtain ⟨job, rfl⟩ := hx
      exact (planned_next _ job).imp_right fun h => ⟨h, .inr ⟨job, htakes⟩⟩
    · exact .inl (perform_next (fun job h => hx ⟨job, h⟩) hs)
  · rw [heq]
    exact .inl rfl

/-! ## What is pending -/

theorem submit_pends (e : Engine ν α) (plan : PlanId) : (e.submit plan).2.session.pending = e.session.pending ∨
    ∃ handles, (e.submit plan).2.session.pending = e.session.pending ++ [(e.token, handles)] := by
  rcases e.submit_cases plan with heq | ⟨rec, failure, pool, -, -, heq⟩ |
    ⟨rec, pool, device, turns, completion, -, -, -, -, heq⟩
  all_goals rw [heq]
  · exact .inl rfl
  · exact .inl rfl
  · exact .inr ⟨_, rfl⟩

theorem planned_pends (e : Engine ν α) (job : JobId) : (e.planned job).session.pending = e.session.pending ∨
    ∃ handles, (e.planned job).session.pending = e.session.pending ++ [(e.token, handles)] := by
  have hleave (e' : Engine ν α) (owned : List Handle) (result : Except Failure (Raster ν α)) :
      (e'.leave job owned result).session = e'.session := (leave_chores e' job owned result).session
  have hwait (e' : Engine ν α) (t : SubmissionId) : (e'.waitFor job t).session.pending = e'.session.pending := by
    rw [waitFor_session]
    split <;> rfl
  unfold planned
  split
  · split
    · exact .inl (congrArg _ (hleave ..))
    · split
      · exact .inl (congrArg _ (hleave ..))
      · rename_i plan _ _ _
        have hsubmit := submit_pends e plan
        split
        all_goals
          rename_i heq
          rw [heq] at hsubmit
        · rw [hleave]
          exact hsubmit
        · rw [hwait]
          split <;> exact hsubmit
    · exact .inl rfl
  · exact .inl rfl

omit [Channel α] [Stored α] [Transfer α] in
theorem finished_pends (e : Engine ν α) (t : SubmissionId) (o : Outcome) :
    (e.finished t o).session.pending = e.session.pending.filter (·.1 != t) ∧
      ∀ handles, e.session.pending.lookup t = some handles →
        (e.finished t o).pool = (Attempt.each Pool.relinquish e.pool handles).2 := by
  have hfinish : (e.finish t).2.session.pending = e.session.pending.filter (·.1 != t) ∧
      ∀ handles, e.session.pending.lookup t = some handles →
        (e.finish t).2.pool = (Attempt.each Pool.relinquish e.pool handles).2 := by
    unfold finish
    cases hl : e.session.pending.lookup t with
    | none =>
      refine ⟨(List.filter_eq_self.mpr fun x hx => ?_).symm, fun handles h => by cases h⟩
      exact bne_iff_ne.mpr (bne_iff_ne.mp (List.lookup_eq_none_iff.mp hl x hx)).symm
    | some handles => exact ⟨rfl, fun handles' h => Option.some.inj h ▸ rfl⟩
  unfold finished
  split
  all_goals
    rename_i heq
    rw [heq] at hfinish
    exact hfinish

theorem move_pends (hs : e.Sorted) (m : Move ν α) (hready : (e.move m).session.phase = .ready) :
    (e.move m).session.pending = e.session.pending ∨
    (∃ handles, (e.move m).session.pending = e.session.pending ++ [(e.token, handles)]) ∨
    ∃ t o rest, e.Takes m (.finished t o) ∧ e.move m = ({ e with turns := rest } : Engine ν α).finished t o := by
  rcases e.move_cases m with ⟨op, rfl⟩ | ⟨x, delay, rest, htakes, -, heq⟩ | ⟨-, turns, -, heq⟩
  · rw [← or_assoc]
    refine .inl ?_
    have hready : (e.apply op).2.session.phase = .ready := hready
    show (e.apply op).2.session.pending = _ ∨ ∃ handles, (e.apply op).2.session.pending = _
    unfold Engine.apply at hready ⊢
    split at hready
    · rename_i hrefused
      rw [if_pos hrefused]
      exact .inl rfl
    · rename_i hallowed
      rw [if_neg hallowed]
      cases op with
      | submit plan => exact submit_pends e plan
      | wait t =>
        refine .inl ?_
        show ((e.addJob .wait).2.waitFor e.jobs.size t).session.pending = _
        rw [waitFor_session]
        split <;> rfl
      | destroy => cases hready.symm.trans (destroy_session e).1
      | _ => exact .inl (congrArg Session.pending (carryOut_session (fun _ => nofun) (fun _ => nofun) nofun))
  · rw [heq] at hready ⊢
    -- only three kinds of turns touch what is pending, and a loss ends the session
    by_cases hplanned : ∃ job, x = .planned job
    · obtain ⟨job, rfl⟩ := hplanned
      exact (planned_pends _ job).imp_right .inl
    · by_cases hfinished : ∃ t o, x = .finished t o
      · obtain ⟨t, o, rfl⟩ := hfinished
        exact .inr (.inr ⟨t, o, rest, htakes, rfl⟩)
      · cases hloss : x.isLoss with
        | true =>
          cases x with
          | lossSeen reason message => exact absurd hready (lossSeen_session _ reason message).1
          | _ => cases hloss
        | false =>
          have hsession := perform_session (e := { e with turns := rest }) (fun job h => hplanned ⟨job, h⟩)
            (fun t o h => hfinished ⟨t, o, h⟩) hloss hs
          exact .inl (congrArg Session.pending hsession)
  · rw [heq]
    exact .inl rfl

/-! ## Submitting -/

/-- A composite call goes on with its plan, which is submitted. -/
def SubmitsFor (e : Engine ν α) (m : Move ν α) (job : JobId) (plan : PlanId) (t : SubmissionId) : Prop :=
  e.Takes m (.planned job) ∧ ∃ c, e.call? job = some c ∧ c.phase = .planned (.ok plan) ∧
    e.abortReason? c.signal = none ∧ (e.submit plan).1 = .ok t

/-- A plan is submitted, by hand or for a composite call. -/
def Submits (e : Engine ν α) (m : Move ν α) (plan : PlanId) (t : SubmissionId) : Prop :=
  (m = .call (.submit plan) ∧ (e.apply (.submit plan)).1 = .ok (.token t)) ∨ ∃ job, e.SubmitsFor m job plan t

theorem accepts_of_ok (h : (e.submit plan).1 = .ok t) :
    ∃ rec pool device, e.Accepts plan rec pool device ∧ t = e.token := by
  have heq : e.submit plan = (.ok t, (e.submit plan).2) := Prod.ext h rfl
  obtain ⟨rec, pool, device, haccepts, ht, -⟩ := submit_ok heq
  exact ⟨rec, pool, device, haccepts, ht⟩

theorem planned_submits {c : CompositeCall ν α} (hc : e.call? job = some c) (hphase : c.phase = .planned (.ok plan))
    (habort : e.abortReason? c.signal = none) {rec : PlanRecord ν α} {pool : Pool ν α} {device : Device ν α}
    (h : e.Accepts plan rec pool device) :
    e.planned job = ({ (e.submitting plan rec pool device).setCall job
      { c with phase := .draining plan e.token } with
      listeners := e.listeners ++ c.signal.toList.map (·, job, e.token) } : Engine ν α).waitFor job e.token := by
  unfold planned
  rw [hc]
  dsimp only
  rw [hphase]
  dsimp only
  rw [habort]
  dsimp only
  rw [h.submit]
  refine congrArg (waitFor · job e.token) ?_
  cases c.signal with
  | none =>
    rw [Option.toList_none, List.map_nil, List.append_nil]
    rfl
  | some signal => rfl

theorem SubmitsFor.move_eq (h : e.SubmitsFor m job plan t) :
    ∃ delay rest c listeners rec pool device, e.turns.Perm ((delay, .planned job) :: rest) ∧ e.call? job = some c ∧
      Accepts { e with turns := rest } plan rec pool device ∧ t = e.token ∧
      e.move m = ({ (({ e with turns := rest } : Engine ν α).submitting plan rec pool device).setCall job
        { c with phase := .draining plan t } with listeners } : Engine ν α).waitFor job t := by
  obtain ⟨htakes, c, hc, hphase, habort, hsubmit⟩ := h
  obtain ⟨rec, pool, device, haccepts, ht⟩ := accepts_of_ok hsubmit
  rcases e.move_cases m with ⟨op, rfl⟩ | ⟨x, delay, rest, htakes', hperm, heq⟩ | ⟨hnone, -⟩
  · exact htakes.elim
  · obtain rfl : x = .planned job := htakes'.unique htakes
    have haccepts' : Accepts { e with turns := rest } plan rec pool device :=
      ⟨haccepts.ready, haccepts.record, haccepts.fresh, haccepts.acquired, haccepts.opened⟩
    subst ht
    exact ⟨delay, rest, c, _, rec, pool, device, hperm, hc, haccepts', rfl,
      heq.trans (planned_submits (e := { e with turns := rest }) hc hphase habort haccepts')⟩
  · exact absurd htakes (hnone _)

end Strata.Engine
