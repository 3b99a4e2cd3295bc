import Strata.Proofs.Engine.Submitting

/-!
# Whatever is done to an engine, act by act

`Act` adds to the acts that leave submissions alone those that serve them. Every turn but the one that learns of
a loss, and every operation but the destruction of a session and the closing of its cache, is a sequence of acts
(`perform_acts`, `apply_acts`); those are sequences of deeds, which may also change the phase and close the
cache (`destroy_deeds`, `lossSeen_deeds`). `R` says which requests are made of the pool from outside.
-/

namespace Strata

open Relation

variable {ν α : Type}

/-- The request that an operation makes of the pool, if that is all it does. -/
def Operation.request? : Operation ν α → Option (Pool.Request ν)
  | allocate format size => some (.allocate format size)
  | acquire h => some (.acquire h)
  | relinquish h => some (.relinquish h)
  | release h => some (.release h)
  | invalidate => some .invalidate
  | trim => some .trim
  | closeArena closing => some (.close closing)
  | limitAllocation limit => some (.limit limit)
  | _ => none

def Turn.isLoss : Turn ν α → Bool
  | lossSeen .. => true
  | _ => false

namespace Engine

variable [Measure ν] [Channel α] [Stored α] [Transfer α]

section
variable (R : Pool.Request ν → Prop)

inductive Act : Engine ν α → Engine ν α → Prop
  | chore {e e' : Engine ν α} (h : e.Chore e') : Act e e'
  /-- What was submitted goes on, and calls are answered. -/
  | deliver (e : Engine ν α) (turns : List (Nat × Turn ν α)) (heldBack : List (Encoded ν))
      (settled : List (JobId × Except Failure (JobValue ν α))) (hturns : e.turns ⊆ turns)
      (hsettled : e.settled ⊆ settled) : Act e { e with turns, heldBack, settled }
  | fill (e : Engine ν α) (a : HostArray) (values : Array α) : Act e (e.fill a values)
  | addWait (e : Engine ν α) : Act e (e.addJob .wait).2
  /-- A call waits for a submission that nobody has waited for. -/
  | await (e : Engine ν α) (job : JobId) (token : SubmissionId) (h : token ∈ e.session.unawaited) : Act e { e with
      session := { e.session with unawaited := e.session.unawaited.erase token }
      completion := (e.completion.wait token job).2 }
  | tell (e : Engine ν α) (token : SubmissionId) (outcome : Outcome) :
      Act e { e with completion := (e.completion.settle token outcome).2 }
  | collect (e : Engine ν α) (token : SubmissionId) : Act e { e with completion := e.completion.collect token }
  | discard (e : Engine ν α) (token : SubmissionId) : Act e { e with completion := (e.completion.discard token).2 }
  /-- Nobody is to wait any more. -/
  | forget (e : Engine ν α) : Act e { e with session := { e.session with unawaited := [] } }
  | submit (e : Engine ν α) (plan : PlanId) : Act e (e.submit plan).2
  | finish (e : Engine ν α) (token : SubmissionId) : Act e (e.finish token).2
  | request (e : Engine ν α) (r : Pool.Request ν) (h : R r) : Act e { e with pool := (r.perform e.pool).2 }

def Acts : Engine ν α → Engine ν α → Prop := ReflTransGen (Act R)

end

variable {R : Pool.Request ν → Prop} {e e' e'' : Engine ν α}

theorem Act.acts (h : Act R e e') : Acts R e e' := .single h

theorem Acts.refl (e : Engine ν α) : Acts R e e := ReflTransGen.refl

theorem Acts.trans (h : Acts R e e') (h' : Acts R e' e'') : Acts R e e'' := ReflTransGen.trans h h'

theorem Chores.acts (h : e.Chores e') : Acts R e e' := by
  induction h with
  | refl => exact .refl e
  | tail _ h ih => exact ih.trans (Act.chore h).acts

/-! ## What acts keep -/

theorem submit_kept (e : Engine ν α) (plan : PlanId) :
    (e.submit plan).2.jobs = e.jobs ∧ (e.submit plan).2.cache = e.cache := by
  rcases e.submit_cases plan with heq | ⟨rec, failure, pool, -, -, heq⟩ |
    ⟨rec, pool, device, turns, completion, -, -, -, -, heq⟩
  all_goals
    rw [heq]
    exact ⟨rfl, rfl⟩

omit [Channel α] [Stored α] [Transfer α] in
theorem finish_kept (e : Engine ν α) (token : SubmissionId) :
    (e.finish token).2.jobs = e.jobs ∧ (e.finish token).2.cache = e.cache := by
  unfold finish
  split <;> exact ⟨rfl, rfl⟩

theorem Act.sorted (h : Act R e e') (hs : e.Sorted) : e'.Sorted := by
  cases h with
  | chore h => exact h.sorted hs
  | addWait => exact fun j hj => (hs j hj).addJob .wait
  | submit plan =>
    obtain ⟨hjobs, hcache⟩ := e.submit_kept plan
    intro j hj
    unfold Busy
    rw [hjobs]
    exact hs j (hcache ▸ hj)
  | finish token =>
    obtain ⟨hjobs, hcache⟩ := e.finish_kept token
    intro j hj
    unfold Busy
    rw [hjobs]
    exact hs j (hcache ▸ hj)
  | deliver | fill | await | tell | collect | discard | forget | request => exact hs

theorem Acts.sorted (h : Acts R e e') (hs : e.Sorted) : e'.Sorted := by
  induction h with
  | refl => exact hs
  | tail _ h ih => exact h.sorted ih

theorem Act.retains (h : Act R e e') : e.Retains e' := by
  cases h with
  | chore h => exact h.retains
  | deliver turns heldBack settled hturns hsettled => exact .of_eq hturns hsettled rfl rfl
  | addWait => exact .addJob e .wait
  | submit plan =>
    rcases e.submit_cases plan with heq | ⟨rec, failure, pool, -, -, heq⟩ |
      ⟨rec, pool, device, turns, completion, -, hturns, -, -, heq⟩
    all_goals rw [heq]
    · exact .refl e
    · exact .of_eq (List.Subset.refl _) (List.Subset.refl _) rfl rfl
    · exact .of_eq hturns (List.Subset.refl _) rfl rfl
  | finish token =>
    unfold Engine.finish
    split
    · exact .refl e
    · exact .of_eq (List.Subset.refl _) (List.Subset.refl _) rfl rfl
  | fill | await | tell | collect | discard | forget | request =>
    exact .of_eq (List.Subset.refl _) (List.Subset.refl _) rfl rfl

/-! ## Submissions on their way -/

theorem Act.schedule (e : Engine ν α) (delay : Nat) (turn : Turn ν α) : Act R e (e.schedule delay turn) :=
  .deliver e _ e.heldBack e.settled (List.subset_append_left ..) (List.Subset.refl _)

theorem Act.settle (e : Engine ν α) (job : JobId) (result : Except Failure (JobValue ν α)) :
    Act R e (e.settle job result) :=
  .deliver e e.turns e.heldBack _ (List.Subset.refl _) (List.subset_append_left ..)

theorem Act.holdBack (e : Engine ν α) (heldBack : List (Encoded ν)) : Act R e { e with heldBack } :=
  .deliver e e.turns heldBack e.settled (List.Subset.refl _) (List.Subset.refl _)

theorem Act.rest (e : Engine ν α) {device : Device ν α} (h : e.pool.device.Rests device) :
    Act R e (e.setDevice device) := .chore (.device e device h)

theorem scheduleAll_acts {β : Type} (l : List β) (delay : Engine ν α → Nat) (f : β → Turn ν α) (e : Engine ν α) :
    Acts R e (l.foldl (fun e x => e.schedule (delay e) (f x)) e) := by
  induction l generalizing e with
  | nil => exact .refl e
  | cons x l ih => exact (Act.schedule e (delay e) (f x)).acts.trans (ih _)

theorem scopesClosed_acts (e : Engine ν α) (s : Encoded ν) : Acts R e (e.scopesClosed s) := by
  unfold scopesClosed
  split
  · exact (Act.schedule ..).acts
  · exact (Act.schedule ..).acts
  · exact (Act.schedule ..).acts
  · exact (Act.schedule ..).acts
  · exact (Act.schedule ..).acts
  · have hrest := Device.Rests.takeFault e.pool.device .workDone
    split
    all_goals
      rename_i heq
      rw [heq] at hrest
      have hset : Acts R e (e.setDevice _) := (Act.rest e hrest).acts
    · exact hset.trans (Act.schedule ..).acts
    · dsimp only
      split
      · exact hset.trans (Act.holdBack _ _).acts
      · exact hset.trans (Act.schedule ..).acts

theorem nextDownload_acts (e : Engine ν α) (token : SubmissionId) (downloads : List (Download ν)) :
    Acts R e (e.nextDownload token downloads) := by
  cases downloads with
  | nil => exact (Act.schedule ..).acts
  | cons d rest =>
    have hrest := Device.Rests.mapBuffer e.pool.device d.buffer
    unfold nextDownload
    exact (Act.rest e hrest).acts.trans (Act.schedule ..).acts

theorem workDone_acts (e : Engine ν α) (s : Encoded ν) (outcome : Outcome) : Acts R e (e.workDone s outcome) := by
  unfold workDone
  split
  · exact (Act.schedule ..).acts
  · split
    · exact (Act.schedule ..).acts
    · split
      · exact (Act.schedule ..).acts
      · exact (Act.schedule ..).acts
      · exact nextDownload_acts e _ _

theorem mapped_acts (e : Engine ν α) (token : SubmissionId) (downloads : List (Download ν)) (outcome : Outcome) :
    Acts R e (e.mapped token downloads outcome) := by
  unfold mapped
  split
  · exact (Act.schedule ..).acts
  · exact nextDownload_acts e token []
  · rename_i d rest
    have hrange := Device.Rests.call e.pool.device .mappedRange (f := id) Device.Rests.refl
    split
    · rename_i heq
      rw [heq] at hrange
      exact (Act.rest e hrange).acts.trans (Act.schedule ..).acts
    · rename_i device heq
      rw [heq] at hrange
      have hset : Acts R e (e.setDevice device) := (Act.rest e hrange).acts
      dsimp only
      split
      · exact hset.trans (Act.schedule ..).acts
      · rename_i values _
        have hfill : Acts R e ((e.setDevice device).fill d.target values) := hset.trans (Act.fill _ _ _).acts
        have hunmap := Device.Rests.call device .unmapBuffer (f := id) Device.Rests.refl
        split
        all_goals
          rename_i heq
          rw [heq] at hunmap
        · exact (hfill.trans (Act.rest ((e.setDevice device).fill d.target values) hunmap).acts).trans
            (Act.schedule ..).acts
        · exact (hfill.trans (Act.rest ((e.setDevice device).fill d.target values) hunmap).acts).trans
            (nextDownload_acts _ token rest)

theorem finished_acts (e : Engine ν α) (token : SubmissionId) (outcome : Outcome) :
    Acts R e (e.finished token outcome) := by
  have hfinish : Acts R e (e.finish token).2 := (Act.finish e token).acts
  unfold finished
  split
  all_goals
    rename_i heq
    rw [heq] at hfinish
    exact hfinish.trans (Act.schedule ..).acts

theorem wake_acts (e : Engine ν α) (token : SubmissionId) (woken : List (JobId × Outcome)) :
    Acts R e (e.wake token woken) :=
  scheduleAll_acts woken (fun e => e.completion.wakeTurns) (fun x => .collected x.1 token x.2) e

theorem reported_acts (e : Engine ν α) (token : SubmissionId) (outcome : Outcome) :
    Acts R e (e.reported token outcome) := (Act.tell e token _).acts.trans (wake_acts _ token _)

/-! ## Waiting -/

theorem pass_acts (e : Engine ν α) (job : JobId) (token : SubmissionId) (outcome : Outcome) :
    Acts R e (e.pass job token outcome) := by
  unfold pass
  split
  · exact (Act.settle ..).acts
  · exact (Act.schedule ..).acts
  · exact .refl e

theorem collected_acts (e : Engine ν α) (job : JobId) (token : SubmissionId) (outcome : Outcome) :
    Acts R e (e.collected job token outcome) := (Act.collect e token).acts.trans (pass_acts _ job token outcome)

theorem waitFor_acts (e : Engine ν α) (job : JobId) (token : SubmissionId) : Acts R e (e.waitFor job token) := by
  unfold waitFor
  split
  · exact pass_acts e job token _
  · split
    · exact pass_acts e job token _
    · rename_i hmem
      rw [not_not] at hmem
      dsimp only
      have hwait : Acts R e { e with
          session := { e.session with unawaited := e.session.unawaited.erase token }
          completion := (e.completion.wait token job).2 } :=
        (Act.await e job token hmem).acts
      generalize e.completion.wait token job = r at hwait
      obtain ⟨reply, completion⟩ := r
      cases reply with
      | now outcome => exact hwait.trans (pass_acts _ job token outcome)
      | later outcome => exact hwait.trans (Act.schedule ..).acts
      | suspended => exact hwait

theorem startWait_acts (e : Engine ν α) (token : SubmissionId) : Acts R e (e.startWait token).2 :=
  (Act.addWait e).acts.trans (waitFor_acts _ _ token)

theorem planned_acts (e : Engine ν α) (job : JobId) : Acts R e (e.planned job) := by
  unfold planned
  split
  · rename_i c hc
    split
    · exact (leave_chores e job _ _).acts
    · rename_i plan _
      split
      · exact (leave_chores e job _ _).acts
      · have hsubmit : Acts R e (e.submit plan).2 := (Act.submit e plan).acts
        have hjobs := (e.submit_kept plan).1
        split
        all_goals
          rename_i heq
          rw [heq] at hsubmit hjobs
        · exact hsubmit.trans (leave_chores _ job _ _).acts
        · rename_i token _
          have hbusy := busy_of_call hc
          unfold Busy at hbusy
          rw [← hjobs] at hbusy
          have hcall := hsubmit.trans (setCall_chores hbusy { c with phase := .draining plan token }).acts
          dsimp only
          split
          · exact (hcall.trans (Chore.note _ _ _ _ _ _ _).chores.acts).trans (waitFor_acts _ job _)
          · exact hcall.trans (waitFor_acts _ job _)
    · exact .refl e
  · exact .refl e

/-! ## Turns and operations -/

theorem perform_acts (hs : e.Sorted) {t : Turn ν α} (ht : t.isLoss = false) : Acts R e (e.perform t) := by
  cases t with
  | buildUngated serial key => exact (buildUngated_chores e serial key).acts
  | buildEnded serial result => exact (buildEnded_chores hs serial result).acts
  | pipelineArrived job index result => exact (pipelineArrived_chores e job index result).acts
  | planReady job result => exact (planReady_chores e job result).acts
  | planned job => exact planned_acts e job
  | scopesClosed s => exact scopesClosed_acts e s
  | workDone s outcome => exact workDone_acts e s outcome
  | mapped token downloads outcome => exact mapped_acts e token downloads outcome
  | rejected token failure => exact (Act.schedule ..).acts
  | finished token outcome => exact finished_acts e token outcome
  | reported token outcome => exact reported_acts e token outcome
  | lossSeen reason message => cases ht
  | collected job token outcome => exact collected_acts e job token outcome
  | drained job token outcome => exact (drained_chores e job token outcome).acts
  | resumed job token outcome => exact (resumed_chores e job token outcome).acts
  | attemptEnded job result => exact (attemptEnded_chores e job result).acts

theorem unhold_acts (e : Engine ν α) : Acts R e e.unhold := by
  have hrest : e.pool.device.Rests { e.pool.device with held := false } :=
    ⟨⟨rfl, rfl, rfl, rfl, List.Subset.refl _⟩, rfl⟩
  have hdrop := (Act.rest (R := R) e hrest).acts.trans
    (Act.holdBack _ []).acts
  exact hdrop.trans (scheduleAll_acts e.heldBack (fun _ => 1) (fun s => .workDone s (.ok ())) _)

omit [Channel α] [Stored α] [Transfer α] in
theorem onDeviceCall_chores (e : Engine ν α) (call : DeviceCall) {f : Device ν α → Device ν α}
    (hf : ∀ d : Device ν α, d.Rests (f d)) : e.Chores (e.onDeviceCall call f).2 :=
  (Chore.device e _ (Device.Rests.call e.pool.device call hf)).chores

theorem carryOut_request {op : Operation ν α} {r : Pool.Request ν} (h : op.request? = some r) (e : Engine ν α) :
    (e.carryOut op).2 = { e with pool := (r.perform e.pool).2 } := by
  cases op <;> cases h
  all_goals
    simp only [carryOut, onPool, onPoolUnit, onDeviceState, replyDone, setDevice, Pool.Request.perform,
      Attempt.endWith_snd]

/-- An operation but the end of a session and the closing of its cache. What it asks of the pool is among `R`. -/
theorem carryOut_acts {op : Operation ν α} (hclose : ∀ closing, op ≠ .closePipelines closing)
    (hdestroy : op ≠ .destroy) (hR : ∀ r, op.request? = some r → R r)
    (hfault : ∀ call raised, op = .fault call raised → R (.script (e.pool.device.faults ++ [(call, raised)]))) :
    Acts R e (e.carryOut op).2 := by
  have hrequest {r : Pool.Request ν} (h : op.request? = some r) : Acts R e (e.carryOut op).2 := by
    rw [carryOut_request h]
    exact (Act.request e r (hR r h)).acts
  cases op with
  | closePipelines closing => exact absurd rfl (hclose closing)
  | destroy => exact absurd rfl hdestroy
  | allocate | acquire | relinquish | release | invalidate | trim | closeArena | limitAllocation =>
    exact hrequest rfl
  | resolve | contains | checkArena | read | supports | hasPipeline | output | checkUsable | config => exact .refl e
  | lookUp key => exact (lookupPipeline_chores e key).acts
  | clearPipelines => exact (Chore.cache e e.cache.clear rfl fun j hj => .inl hj).chores.acts
  | makePlan stack uploads => exact (startPlan_chores e stack uploads).acts
  | takePlan plan => exact (Chore.addPlan e plan).chores.acts
  | makeArray values => exact (Chore.makeArray e values).chores.acts
  | submit plan => exact (Act.submit e plan).acts
  | wait token => exact startWait_acts e token
  | composite layers options verifies => exact (startComposite_chores e layers options verifies).acts
  | configure change => exact (configure_chores e change).acts
  | newSignal => exact (Chore.note e e.config e.lossAnnounced _ e.listeners e.gated e.log).chores.acts
  | abort signal reason => exact (abort_chores e signal reason).acts
  | inject filter message =>
    exact (onDeviceCall_chores e .inject (f := (·.inject filter message)) fun _ =>
      ⟨⟨rfl, rfl, rfl, rfl, List.Subset.refl _⟩, rfl⟩).acts
  | fault call raised => exact (Act.request e _ (hfault call raised rfl)).acts
  | lose message =>
    refine Attempt.andThen_keeps (P := fun e' => Acts R e e') ?_ fun _ _ => ?_
    all_goals have hcall := (onDeviceCall_chores e .lose (f := id) Device.Rests.refl).acts (R := R)
    · exact hcall
    · exact hcall.trans (lose_chores _ message).acts
  | uncaptured message => exact (report_chores e _).acts
  | hold =>
    exact (onDeviceCall_chores e .hold (f := fun d => { d with held := true }) fun _ =>
      ⟨⟨rfl, rfl, rfl, rfl, List.Subset.refl _⟩, rfl⟩).acts
  | unhold =>
    refine Attempt.andThen_keeps (P := fun e' => Acts R e e') ?_ fun _ _ => ?_
    all_goals have hcall := (onDeviceCall_chores e .unhold (f := id) Device.Rests.refl).acts (R := R)
    · exact hcall
    · exact hcall.trans (unhold_acts _)
  | gate =>
    exact (onDeviceCall_chores e .gate (f := fun d => { d with gate := some (d.gates + 1), gates := d.gates + 1 })
      fun _ => ⟨⟨rfl, rfl, rfl, rfl, List.Subset.refl _⟩, rfl⟩).acts
  | openGate =>
    show Acts R e (if e.pool.device.gates = 0 then (.error (.host .mistyped), e) else
      e.openGate.replyDone : Answered ν α).2
    split
    · exact .refl e
    · exact (openGate_chores e).acts
  | refuseBuilds on =>
    have hrest : e.pool.device.Rests { e.pool.device with refusesBuilds := on } :=
      ⟨⟨rfl, rfl, rfl, rfl, List.Subset.refl _⟩, rfl⟩
    exact (Act.rest e hrest).acts

/-! ## The end of a session -/

section
variable (R)

inductive Deed : Engine ν α → Engine ν α → Prop
  | act {e e' : Engine ν α} (h : Act R e e') : Deed e e'
  /-- A session ends. A destroyed one stays destroyed. -/
  | phase (e : Engine ν α) (phase : Phase) (h : phase ≠ .ready) (hd : e.session.phase ≠ .destroyed) :
      Deed e { e with session := { e.session with phase } }
  | closeCache (e : Engine ν α) (closing : Closing) : Deed e { e with cache := (e.cache.close closing).2 }
  | destroyDevice (e : Engine ν α) : Deed e (e.setDevice e.pool.device.destroy.2)

def Deeds : Engine ν α → Engine ν α → Prop := ReflTransGen (Deed R)

end

theorem Deed.deeds (h : Deed R e e') : Deeds R e e' := .single h

theorem Deeds.refl (e : Engine ν α) : Deeds R e e := ReflTransGen.refl

theorem Deeds.trans (h : Deeds R e e') (h' : Deeds R e' e'') : Deeds R e e'' := ReflTransGen.trans h h'

theorem Acts.deeds (h : Acts R e e') : Deeds R e e' := by
  induction h with
  | refl => exact .refl e
  | tail _ h ih => exact ih.trans (Deed.act h).deeds

theorem Deed.sorted (h : Deed R e e') (hs : e.Sorted) : e'.Sorted := by
  cases h with
  | act h => exact h.sorted hs
  | closeCache closing => exact fun j hj => hs j (Cache.Owes.of_close hj)
  | phase | destroyDevice => exact hs

theorem Deeds.sorted (h : Deeds R e e') (hs : e.Sorted) : e'.Sorted := by
  induction h with
  | refl => exact hs
  | tail _ h ih => exact h.sorted ih

theorem Deed.retains (h : Deed R e e') : e.Retains e' := by
  cases h with
  | act h => exact h.retains
  | phase | closeCache | destroyDevice => exact .of_eq (List.Subset.refl _) (List.Subset.refl _) rfl rfl

theorem Deeds.retains (h : Deeds R e e') : e.Retains e' := by
  induction h with
  | refl => exact .refl e
  | tail _ h ih => exact ih.trans h.retains

theorem closePipelines_deeds (hs : e.Sorted) (closing : Closing) : Deeds R e (e.closePipelines closing) := by
  refine (Deed.closeCache e closing).deeds.trans (answerAll_chores fun x hx j hj => ?_).acts.deeds
  obtain ⟨w, hw, rfl⟩ := List.mem_map.mp hx
  cases hj
  exact hs j (@Cache.Owes.of_refused _ closing _ hw)

theorem abandonPending_acts (e : Engine ν α) (failure : Failure) : Acts R e (e.abandonPending failure).2 := by
  refine Attempt.each_keeps (P := fun e' => Acts R e e') (fun e' he' token _ => ?_) (.refl e)
  have hfinish := he'.trans (Act.finish e' token).acts
  refine Attempt.andThen_keeps (P := fun e' => Acts R e e') hfinish fun _ _ => ?_
  exact (hfinish.trans (Act.tell _ token _).acts).trans (wake_acts _ token _)

theorem discardUnawaited_acts (e : Engine ν α) : Acts R e e.discardUnawaited := by
  unfold discardUnawaited
  dsimp only
  refine Acts.trans ?_ (Act.forget _).acts
  exact List.foldlRecOn _ _ (motive := fun e' => Acts R e e') (.refl e) fun e' h token _ =>
    (h.trans (Act.discard e' token).acts).trans (wake_acts _ token _)

theorem shutDown_deeds (hs : e.Sorted) {closing : Closing} (hR : R (.close closing)) :
    Deeds R e (e.shutDown closing).2 := by
  have hpool : Deeds R e { e with pool := (e.pool.close closing).2 } := by
    have hrequest := (Deed.act (Act.request e _ hR)).deeds
    unfold Pool.Request.perform at hrequest
    rwa [Attempt.endWith_snd] at hrequest
  refine Attempt.andThen_keeps (P := fun e' => Deeds R e e') hpool fun _ _ => ?_
  have hcache := hpool.trans (closePipelines_deeds (hpool.sorted hs) closing)
  exact hcache.trans (Deed.destroyDevice _).deeds

theorem destroy_deeds (hs : e.Sorted) (hR : ∀ closing, R (.close closing)) : Deeds R e e.destroy.2 := by
  unfold destroy
  split
  · exact .refl e
  · rename_i hd
    have hphase := (Deed.phase (R := R) e .destroyed nofun hd).deeds
    have habandon := hphase.trans (abandonPending_acts _ (.of (.sessionDestroyed .deviceLost))).deeds
    refine Attempt.andThen_keeps (P := fun e' => Deeds R e e') habandon fun _ _ => ?_
    have hdiscard := habandon.trans (discardUnawaited_acts _).deeds
    exact hdiscard.trans (shutDown_deeds (hdiscard.sorted hs) (hR _))

theorem lossSeen_deeds (hs : e.Sorted) (hR : ∀ closing, R (.close closing)) (reason message : String) :
    Deeds R e (e.lossSeen reason message) := by
  unfold lossSeen
  split
  · exact .refl e
  · rename_i hd
    have hphase := (report_chores e (.deviceLost reason message)).acts.deeds.trans
      (Deed.phase (R := R) (e.report (.deviceLost reason message)) .lost nofun hd).deeds
    have habandon := hphase.trans (abandonPending_acts _ (.of (.deviceLostBecause reason message))).deeds
    refine Attempt.andThen_keeps (P := fun e' => Deeds R e e') habandon fun _ _ => ?_
    exact habandon.trans (shutDown_deeds (habandon.sorted hs) (hR _))

/-! ## Moves -/

theorem apply_acts {op : Operation ν α} (hclose : ∀ closing, op ≠ .closePipelines closing)
    (hdestroy : op ≠ .destroy) (hR : ∀ r, op.request? = some r → R r)
    (hfault : ∀ call raised, op = .fault call raised → R (.script (e.pool.device.faults ++ [(call, raised)]))) :
    Acts R e (e.apply op).2 := by
  unfold Engine.apply
  split
  · exact .refl e
  · exact carryOut_acts hclose hdestroy hR hfault

theorem apply_deeds (hs : e.Sorted) (op : Operation ν α) (hclose : ∀ closing, R (.close closing))
    (hR : ∀ r, op.request? = some r → R r)
    (hfault : ∀ call raised, op = .fault call raised → R (.script (e.pool.device.faults ++ [(call, raised)]))) :
    Deeds R e (e.apply op).2 := by
  by_cases hcache : ∃ closing, op = .closePipelines closing
  · obtain ⟨closing, rfl⟩ := hcache
    exact closePipelines_deeds hs closing
  · by_cases hdestroy : op = .destroy
    · subst hdestroy
      unfold Engine.apply
      split
      · exact .refl e
      · exact destroy_deeds hs hclose
    · exact (apply_acts (fun closing h => hcache ⟨closing, h⟩) hdestroy hR hfault).deeds

theorem perform_deeds (hs : e.Sorted) (t : Turn ν α) (hclose : ∀ closing, R (.close closing)) :
    Deeds R e (e.perform t) := by
  cases h : t.isLoss with
  | false => exact (perform_acts hs h).deeds
  | true =>
    cases t with
    | lossSeen reason message => exact lossSeen_deeds hs hclose reason message
    | _ => cases h

theorem fire_deeds (hs : e.Sorted) (hclose : ∀ closing, R (.close closing)) :
    ∃ turns ⊆ e.turns, Deeds R { e with turns } e.fire := by
  unfold fire
  split
  · exact ⟨e.turns, List.Subset.refl _, .refl e⟩
  · rename_i delay t rest heq
    refine ⟨rest, heq ▸ List.subset_cons_self .., ?_⟩
    dsimp only
    split
    · exact @perform_deeds _ _ _ _ _ _ _ { e with turns := rest } hs t hclose
    · exact (Act.schedule _ _ t).acts.deeds

/-- Whatever is done to an engine is a sequence of deeds, once the turn that is run is taken. -/
theorem move_deeds (hs : e.Sorted) (m : Move ν α) (hclose : ∀ closing, R (.close closing))
    (hR : ∀ op r, m = .call op → op.request? = some r → R r)
    (hfault : ∀ call raised, m = .call (.fault call raised) →
      R (.script (e.pool.device.faults ++ [(call, raised)]))) :
    ∃ turns ⊆ e.turns, Deeds R { e with turns } (e.move m) := by
  cases m with
  | call op =>
    exact ⟨e.turns, List.Subset.refl _, apply_deeds hs op hclose (hR op · rfl) fun call raised h =>
      hfault call raised (h ▸ rfl)⟩
  | turn n =>
    unfold Engine.move
    dsimp only
    split
    · exact ⟨_, List.eraseIdx_subset,
        @perform_deeds _ _ _ _ _ _ _ { e with turns := e.turns.eraseIdx n } hs _ hclose⟩
    · exact ⟨e.turns, List.Subset.refl _, .refl e⟩
  | fire => exact fire_deeds hs hclose

end Engine

end Strata
