import Strata.Proofs.Engine.Acts
import Strata.Proofs.Engine.Arrays
import Strata.Proofs.Engine.Calls

/-!
# What submissions leave alone

Submitting, reading back, delivering an outcome and aborting touch no build, no plan and no call but those that
only wait: `Bystands` says so, with the turns that are added, which all deliver something. Whoever relies on builds,
plans or composite calls need not look into any of it.
-/

namespace Strata

variable {ν α : Type}

/-- A turn that carries a submission or its outcome further, or tells of the loss of the device. -/
def Turn.delivers : Turn ν α → Bool
  | scopesClosed _ | workDone .. | mapped .. | rejected .. | finished .. | reported .. | lossSeen .. | collected ..
  | drained .. | resumed .. => true
  | _ => false

namespace Engine

structure Bystands (e e' : Engine ν α) : Prop where
  cache : e'.cache = e.cache
  gated : e'.gated = e.gated
  capabilities : e'.capabilities = e.capabilities
  jobs : ∃ more, e'.jobs = e.jobs ++ more ∧ ∀ job ∈ more, job.isWait = true
  plans : ∀ (id : PlanId) rec, e.plans[id]? = some rec → ∃ rec', e'.plans[id]? = some rec' ∧ rec'.plan = rec.plan
  turns : ∃ more, e'.turns = e.turns ++ more ∧ ∀ t ∈ more, t.2.delivers = true
  settled : ∃ more, e'.settled = e.settled ++ more ∧
    ∀ x ∈ more, e'.jobs[x.1]? = some .wait ∧ ∀ v, x.2 = .ok v → v = .nothing

variable {e e' e'' : Engine ν α}

theorem Bystands.of_eq (hcache : e'.cache = e.cache) (hgated : e'.gated = e.gated)
    (hcapabilities : e'.capabilities = e.capabilities) (hjobs : e'.jobs = e.jobs) (hplans : e'.plans = e.plans)
    (hturns : e'.turns = e.turns) (hsettled : e'.settled = e.settled) : e.Bystands e' :=
  ⟨hcache, hgated, hcapabilities,
    ⟨#[], by rw [hjobs, Array.append_empty], fun _ h => absurd h (Array.not_mem_empty _)⟩,
    fun id rec h => ⟨rec, by rw [hplans]; exact h, rfl⟩,
      ⟨[], by rw [hturns, List.append_nil], fun _ h => absurd h List.not_mem_nil⟩,
    ⟨[], by rw [hsettled, List.append_nil], fun _ h => absurd h List.not_mem_nil⟩⟩

theorem Bystands.refl (e : Engine ν α) : e.Bystands e := .of_eq rfl rfl rfl rfl rfl rfl rfl

theorem Bystands.setDevice (e : Engine ν α) (device : Device ν α) : e.Bystands (e.setDevice device) :=
  .of_eq rfl rfl rfl rfl rfl rfl rfl

theorem Bystands.setCompletion (e : Engine ν α) (completion : Completion JobId) :
    e.Bystands { e with completion } :=
  .of_eq rfl rfl rfl rfl rfl rfl rfl

theorem Bystands.job (h : e.Bystands e') {j : JobId} {job : Job ν α} (hj : e.jobs[j]? = some job) :
    e'.jobs[j]? = some job := by
  obtain ⟨more, hmore, -⟩ := h.jobs
  obtain ⟨hlt, -⟩ := Array.getElem?_eq_some_iff.mp hj
  rw [hmore, Array.getElem?_append_left hlt]
  exact hj

/-- A call that does more than to wait was there before. -/
theorem Bystands.job_back (h : e.Bystands e') {j : JobId} {job : Job ν α} (hj : e'.jobs[j]? = some job)
    (hw : job.isWait = false) : e.jobs[j]? = some job := by
  obtain ⟨more, hmore, hwait⟩ := h.jobs
  rw [hmore, Array.getElem?_append] at hj
  split at hj
  · exact hj
  · rw [hwait job (Array.mem_of_getElem? hj)] at hw
    cases hw

theorem Bystands.size (h : e.Bystands e') : e.jobs.size ≤ e'.jobs.size := by
  obtain ⟨more, hmore, -⟩ := h.jobs
  rw [hmore, Array.size_append]
  exact Nat.le_add_right ..

theorem Bystands.trans (h : e.Bystands e') (h' : e'.Bystands e'') : e.Bystands e'' := by
  refine ⟨h'.cache.trans h.cache, h'.gated.trans h.gated, h'.capabilities.trans h.capabilities, ?_,
    fun id rec hrec => ?_, ?_, ?_⟩
  · obtain ⟨more, hmore, hwait⟩ := h.jobs
    obtain ⟨more', hmore', hwait'⟩ := h'.jobs
    refine ⟨more ++ more', by rw [hmore', hmore, Array.append_assoc], fun job hj => ?_⟩
    exact (Array.mem_append.mp hj).elim (hwait job) (hwait' job)
  · obtain ⟨rec', hrec', hp⟩ := h.plans id rec hrec
    obtain ⟨rec'', hrec'', hp'⟩ := h'.plans id rec' hrec'
    exact ⟨rec'', hrec'', hp'.trans hp⟩
  · obtain ⟨more, hmore, ht⟩ := h.turns
    obtain ⟨more', hmore', ht'⟩ := h'.turns
    refine ⟨more ++ more', by rw [hmore', hmore, List.append_assoc], fun t h => ?_⟩
    exact (List.mem_append.mp h).elim (ht t) (ht' t)
  · obtain ⟨more, hmore, hs⟩ := h.settled
    obtain ⟨more', hmore', hs'⟩ := h'.settled
    refine ⟨more ++ more', by rw [hmore', hmore, List.append_assoc], fun x hx => ?_⟩
    exact (List.mem_append.mp hx).elim (fun hx => ⟨h'.job (hs x hx).1, (hs x hx).2⟩) (hs' x)

/-! ## What submissions consist of -/

theorem Bystands.schedule (e : Engine ν α) (delay : Nat) {t : Turn ν α} (ht : t.delivers = true) :
    e.Bystands (e.schedule delay t) :=
  { Bystands.refl e with turns := ⟨[(delay, t)], rfl, fun x hx => by rw [List.mem_singleton.mp hx]; exact ht⟩ }

theorem Bystands.scheduleAll {β : Type} (l : List β) (delay : Engine ν α → Nat) (f : β → Turn ν α)
    (hf : ∀ x, (f x).delivers = true) (e : Engine ν α) :
    e.Bystands (l.foldl (fun e x => e.schedule (delay e) (f x)) e) := by
  induction l generalizing e with
  | nil => exact .refl e
  | cons x l ih => exact (Bystands.schedule e (delay e) (hf x)).trans (ih _)

theorem Bystands.settle (e : Engine ν α) {j : JobId} (hj : e.jobs[j]? = some .wait) (outcome : Outcome) :
    e.Bystands (e.settle j (outcome.map fun _ => .nothing)) :=
  { Bystands.refl e with
    settled := ⟨[(j, outcome.map fun _ => .nothing)], rfl, fun x hx => by
      rw [List.mem_singleton.mp hx]
      refine ⟨hj, fun v hv => ?_⟩
      cases outcome <;> cases hv
      rfl⟩ }

theorem Bystands.addPlan (e : Engine ν α) (plan : Plan ν α) : e.Bystands (e.addPlan plan).2 :=
  { Bystands.refl e with
    plans := fun id rec h => by
      obtain ⟨hlt, -⟩ := Array.getElem?_eq_some_iff.mp h
      refine ⟨rec, ?_, rfl⟩
      show (e.plans.push _)[id]? = _
      rw [Array.getElem?_push_lt hlt, ← h, Array.getElem?_eq_getElem hlt] }

theorem Bystands.makeArray (e : Engine ν α) (values : Array α) :
    e.Bystands { e with arrays := e.arrays.push values } :=
  .of_eq rfl rfl rfl rfl rfl rfl rfl

theorem Bystands.fill (e : Engine ν α) (a : HostArray) (values : Array α) : e.Bystands (e.fill a values) :=
  { Bystands.refl e with plans := fun _ _ h => plan_fill e a values h }

theorem Bystands.addWait (e : Engine ν α) : e.Bystands (e.addJob .wait).2 :=
  { Bystands.refl e with
    jobs := ⟨#[.wait], Array.push_eq_append, fun job hj => by simp at hj; rw [hj]; rfl⟩
    settled := ⟨[], (List.append_nil _).symm, fun _ h => absurd h List.not_mem_nil⟩ }

theorem scopesClosed_bystands (e : Engine ν α) (s : Encoded ν) : e.Bystands (e.scopesClosed s) := by
  unfold scopesClosed
  split
  · exact .schedule e 1 rfl
  · exact .schedule e 1 rfl
  · exact .schedule e 1 rfl
  · exact .schedule e 1 rfl
  · exact .schedule e 1 rfl
  · split
    · exact (Bystands.setDevice e _).trans (.schedule _ 1 rfl)
    · dsimp only
      split
      · exact .of_eq rfl rfl rfl rfl rfl rfl rfl
      · exact (Bystands.setDevice e _).trans (.schedule _ 1 rfl)

theorem nextDownload_bystands (e : Engine ν α) (token : SubmissionId) (downloads : List (Download ν)) :
    e.Bystands (e.nextDownload token downloads) := by
  cases downloads with
  | nil => exact .schedule e 2 rfl
  | cons d rest => exact (Bystands.setDevice e _).trans (.schedule _ 1 rfl)

theorem workDone_bystands (e : Engine ν α) (s : Encoded ν) (outcome : Outcome) :
    e.Bystands (e.workDone s outcome) := by
  unfold workDone
  split
  · exact .schedule e 1 rfl
  · split
    · exact .schedule e 1 rfl
    · split
      · exact .schedule e 1 rfl
      · exact .schedule e 1 rfl
      · exact nextDownload_bystands e _ _

theorem wake_bystands (e : Engine ν α) (token : SubmissionId) (woken : List (JobId × Outcome)) :
    e.Bystands (e.wake token woken) :=
  .scheduleAll woken (fun e => e.completion.wakeTurns) (fun x => .collected x.1 token x.2) (fun _ => rfl) e

theorem reported_bystands (e : Engine ν α) (token : SubmissionId) (outcome : Outcome) :
    e.Bystands (e.reported token outcome) := (Bystands.setCompletion e _).trans (wake_bystands _ token _)

theorem pass_bystands (e : Engine ν α) (job : JobId) (token : SubmissionId) (outcome : Outcome) :
    e.Bystands (e.pass job token outcome) := by
  unfold pass
  split
  · rename_i h
    exact .settle e h _
  · rename_i c _
    refine .schedule e 2 ?_
    split <;> rfl
  · exact .refl e

theorem collected_bystands (e : Engine ν α) (job : JobId) (token : SubmissionId) (outcome : Outcome) :
    e.Bystands (e.collected job token outcome) :=
  (Bystands.setCompletion e (e.completion.collect token)).trans (pass_bystands _ job token outcome)

theorem waitFor_bystands (e : Engine ν α) (job : JobId) (token : SubmissionId) :
    e.Bystands (e.waitFor job token) := by
  unfold waitFor
  split
  · exact pass_bystands e job token _
  · split
    · exact pass_bystands e job token _
    · dsimp only
      generalize e.completion.wait token job = r
      obtain ⟨reply, completion⟩ := r
      have hset : e.Bystands { e with
          session := { e.session with unawaited := e.session.unawaited.erase token }
          completion } := .of_eq rfl rfl rfl rfl rfl rfl rfl
      cases reply with
      | now outcome => exact hset.trans (pass_bystands _ job token outcome)
      | later outcome => exact hset.trans (.schedule _ 1 rfl)
      | suspended => exact hset

theorem startWait_bystands (e : Engine ν α) (token : SubmissionId) : e.Bystands (e.startWait token).2 :=
  (Bystands.addWait e).trans (waitFor_bystands _ _ token)

theorem discardUnawaited_bystands (e : Engine ν α) : e.Bystands e.discardUnawaited := by
  have hstep (e' : Engine ν α) (h : e.Bystands e') (token : SubmissionId) :
      e.Bystands ({ e' with completion := (e'.completion.discard token).2 }.wake token
        (e'.completion.discard token).1) :=
    (h.trans (.setCompletion e' _)).trans (wake_bystands _ token _)
  have hall := List.foldlRecOn e.session.unawaited _ (motive := fun e' => e.Bystands e') (.refl e)
    fun e' h token _ => hstep e' h token
  exact hall.trans (.of_eq rfl rfl rfl rfl rfl rfl rfl)

theorem abort_bystands (e : Engine ν α) (signal : SignalId) (reason : Option Raised) :
    e.Bystands (e.abort signal reason) := by
  unfold abort
  split
  · exact .refl e
  · have hset : e.Bystands { e with
        signals := e.signals.setIfInBounds signal (some (abortFailure reason))
        listeners := e.listeners.filter (·.1 != signal) } := .of_eq rfl rfl rfl rfl rfl rfl rfl
    exact hset.trans (.scheduleAll (e.listeners.filter (·.1 == signal)) (fun _ => 1)
      (fun x => .resumed x.2.1 x.2.2 (.error (abortFailure reason))) (fun _ => rfl) _)

theorem unhold_bystands (e : Engine ν α) : e.Bystands e.unhold := by
  have hset : e.Bystands { e with
      heldBack := []
      pool := { e.pool with device := { e.pool.device with held := false } } } := .of_eq rfl rfl rfl rfl rfl rfl rfl
  exact hset.trans (.scheduleAll e.heldBack (fun _ => 1) (fun s => .workDone s (.ok ())) (fun _ => rfl) _)

theorem lose_bystands (e : Engine ν α) (message : String) : e.Bystands (e.lose message) := by
  unfold lose
  split
  · exact .refl e
  · have hset : e.Bystands { e with lossAnnounced := true } := .of_eq rfl rfl rfl rfl rfl rfl rfl
    dsimp only
    split
    · exact hset.trans (.schedule _ 1 rfl)
    · exact hset

theorem drained_bystands (e : Engine ν α) (job : JobId) (token : SubmissionId) (outcome : Outcome) :
    e.Bystands (e.drained job token outcome) := by
  have hlisten (e' : Engine ν α) (h : e.Bystands e') (listening : Bool) :
      e.Bystands (if listening then e'.schedule 1 (.resumed job token outcome) else e') := by
    cases listening with
    | false => exact h
    | true => exact h.trans (.schedule _ 1 rfl)
  have hset : e.Bystands { e with listeners := e.listeners.filter fun l => l.2 != (job, token) } :=
    .of_eq rfl rfl rfl rfl rfl rfl rfl
  have hreport (aborted : Bool) (failure : Failure) : e.Bystands (if aborted then
      ({ e with listeners := e.listeners.filter fun l => l.2 != (job, token) } : Engine ν α).report
        (.failedAfterAbort failure)
      else { e with listeners := e.listeners.filter fun l => l.2 != (job, token) }) := by
    cases aborted <;> exact .of_eq rfl rfl rfl rfl rfl rfl rfl
  unfold drained
  refine hlisten _ ?_ _
  cases outcome with
  | ok u => exact hset
  | error failure => exact hreport _ failure

section
variable [Measure ν]

theorem finish_bystands (e : Engine ν α) (token : SubmissionId) : e.Bystands (e.finish token).2 := by
  unfold finish
  split <;> exact .of_eq rfl rfl rfl rfl rfl rfl rfl

theorem finished_bystands (e : Engine ν α) (token : SubmissionId) (outcome : Outcome) :
    e.Bystands (e.finished token outcome) := by
  have hfinish := finish_bystands e token
  unfold finished
  split
  all_goals
    rename_i heq
    rw [heq] at hfinish
    exact hfinish.trans (.schedule _ _ rfl)

theorem abandonPending_bystands (e : Engine ν α) (failure : Failure) : e.Bystands (e.abandonPending failure).2 := by
  refine Attempt.each_keeps (P := fun e' => e.Bystands e') (fun e' he' token _ => ?_) (.refl e)
  have hfinish := he'.trans (finish_bystands e' token)
  refine Attempt.andThen_keeps (P := fun e' => e.Bystands e') hfinish fun _ _ => ?_
  exact (hfinish.trans (.setCompletion _ _)).trans (wake_bystands _ token _)

variable [Channel α] [Stored α]

theorem mapped_bystands (e : Engine ν α) (token : SubmissionId) (downloads : List (Download ν))
    (outcome : Outcome) : e.Bystands (e.mapped token downloads outcome) := by
  have hreject (e' : Engine ν α) (failure : Failure) : e'.Bystands (e'.reject token failure) := .schedule e' 1 rfl
  unfold mapped
  split
  · exact hreject e _
  · exact nextDownload_bystands e token []
  · split
    · exact (Bystands.setDevice e _).trans (hreject _ _)
    · rename_i d rest _ device _
      have hset : e.Bystands (e.setDevice device) := .of_eq rfl rfl rfl rfl rfl rfl rfl
      dsimp only
      split
      · exact hset.trans (hreject _ _)
      · rename_i values _
        have hfill := hset.trans (.fill (e.setDevice device) d.target values)
        split
        · exact (hfill.trans (.setDevice ((e.setDevice device).fill d.target values) _)).trans (hreject _ _)
        · exact (hfill.trans (.setDevice ((e.setDevice device).fill d.target values) _)).trans
            (nextDownload_bystands _ token _)

variable [Transfer α]

theorem execute_bystands (e : Engine ν α) (token : SubmissionId) (id : PlanId) (plan : Plan ν α) :
    e.Bystands (e.execute token id plan).2 := by
  unfold execute
  split <;> exact .of_eq rfl rfl rfl rfl rfl rfl rfl

theorem submit_bystands (e : Engine ν α) (plan : PlanId) : e.Bystands (e.submit plan).2 := by
  unfold submit
  split
  · exact .refl e
  · exact .refl e
  · rename_i rec _ _
    split
    · exact .refl e
    · dsimp only
      split
      · exact .of_eq rfl rfl rfl rfl rfl rfl rfl
      · rename_i pool _
        have hbegun : e.Bystands (e.begun plan rec pool) := .of_eq rfl rfl rfl rfl rfl rfl rfl
        have hrun := hbegun.trans (execute_bystands (e.begun plan rec pool) e.token plan rec.plan)
        unfold begun token at hrun
        split
        all_goals
          rename_i heq
          rw [heq] at hrun
        · exact hrun
        · exact hrun.trans (.trans (.schedule _ 2 rfl) (.of_eq rfl rfl rfl rfl rfl rfl rfl))

end

end Engine

end Strata
