import Strata.Proofs.Engine.Chores

/-!
# What a submission does

A plan that is accepted has its slots referred to, its stages recorded between two error scopes, and its token
watched (`submit_ok`). Whatever comes of it, the engine has taken references, or begun a submission and then changed
nothing of the device but what buffers hold (`submit_cases`).
-/

namespace Strata

/-- Buffers keep their sizes, and no fault is new. -/
structure Device.Firm {ν α : Type} (d d' : Device ν α) : Prop where
  size : d.buffers.size ≤ d'.buffers.size
  block : ∀ id < d.buffers.size, (d'.buffers.block id).size = (d.buffers.block id).size
  faults : d'.faults ⊆ d.faults

theorem Session.ready_of_usable {s : Session} (h : s.checkUsable = .ok ()) : s.phase = .ready := by
  unfold checkUsable at h
  split at h
  · assumption
  · cases h
  · cases h

namespace Engine

variable {ν α : Type} [Measure ν] [Channel α] [Stored α] [Transfer α] {e e' : Engine ν α}

omit [Channel α] [Stored α] [Transfer α] in
theorem acquireAll_quiet {pool : Pool ν α} (hp : pool.Sound) (taken handles : List Handle) :
    pool.Quiet (acquireAll pool taken handles).2 := by
  induction handles generalizing pool taken with
  | nil => exact .refl hp
  | cons h rest ih =>
    have hq := Pool.acquire_spec hp h
    unfold acquireAll
    generalize pool.acquire h = r at hq
    obtain ⟨r, pool'⟩ := r
    cases r with
    | error failure =>
      show pool.Quiet ((Attempt.each Pool.relinquish pool' taken.reverse).endWith
        (.error failure : Except Failure Unit)).2
      rw [Attempt.endWith_snd]
      exact hq.trans (Pool.each_relinquish_spec hq.sound _).1
    | ok ref => exact hq.trans (ih hq.sound _)

/-- Stages that were run inside the scopes, and the device after that. -/
def ran (token : SubmissionId) (plan : PlanId) (arena : Arena ν) (device : Device ν α) (stages : List (Stage ν α)) :
    Encoded ν × Device ν α :=
  let (downloads, device) := Encoder.run arena plan device stages
  (⟨token, device.popScope.1.mapError .ofRaised, device.popScope.2.popScope.1.mapError .ofRaised, downloads⟩,
    device.popScope.2.popScope.2)

/-- A plan can be submitted, and its stages are recorded by a device with open scopes. -/
structure Accepts (e : Engine ν α) (plan : PlanId) (rec : PlanRecord ν α) (pool : Pool ν α)
    (device : Device ν α) : Prop where
  ready : e.session.phase = .ready
  record : e.plans[plan]? = some rec
  fresh : plan ∉ e.session.consumed
  acquired : acquireAll e.pool [] (rec.plan.stages.flatMap Stage.handles) = (.ok (), pool)
  opened : pushScopes pool.device = (.ok (), device)

def token (e : Engine ν α) : SubmissionId := .number e.session.nextToken

def submitting (e : Engine ν α) (plan : PlanId) (rec : PlanRecord ν α) (pool : Pool ν α)
    (device : Device ν α) : Engine ν α :=
  let (s, device) := ran e.token plan pool.arena device rec.plan.stages
  { e with
    pool := { pool with device }
    session := { e.session with
      consumed := plan :: e.session.consumed
      nextToken := e.session.nextToken + 1
      pending := e.session.pending ++ [(e.token, rec.plan.stages.flatMap Stage.handles)]
      unawaited := e.session.unawaited ++ [e.token] }
    turns := e.turns ++ [(2, .scopesClosed s)]
    completion := e.completion.watch e.token }

theorem Accepts.submit {plan : PlanId} {rec : PlanRecord ν α} {pool : Pool ν α} {device : Device ν α}
    (h : e.Accepts plan rec pool device) : e.submit plan = (.ok e.token, e.submitting plan rec pool device) := by
  unfold Engine.submit Session.checkUsable
  rw [h.ready, h.record]
  dsimp only
  rw [if_neg h.fresh, h.acquired]
  dsimp only
  unfold execute
  dsimp only
  rw [h.opened]
  rfl

theorem submit_ok {plan : PlanId} {token : SubmissionId} (h : e.submit plan = (.ok token, e')) :
    ∃ rec pool device, e.Accepts plan rec pool device ∧ token = e.token ∧
    e' = e.submitting plan rec pool device := by
  have haccepts : ∃ rec pool device, e.Accepts plan rec pool device := by
    unfold submit at h
    split at h
    · cases h
    · cases h
    · rename_i rec husable hrec
      have hready := Session.ready_of_usable husable
      split at h
      · cases h
      · rename_i hfresh
        dsimp only at h
        cases hacquire : acquireAll e.pool [] (rec.plan.stages.flatMap Stage.handles) with
        | mk r pool =>
          rw [hacquire] at h
          cases r with
          | error failure => cases h
          | ok u =>
            unfold execute at h
            dsimp only at h
            cases hscopes : pushScopes pool.device with
            | mk r device =>
              rw [hscopes] at h
              cases r with
              | error raised => cases h
              | ok u => exact ⟨rec, pool, device, ⟨hready, hrec, hfresh, hacquire, hscopes⟩⟩
  obtain ⟨rec, pool, device, haccepts⟩ := haccepts
  rw [haccepts.submit] at h
  cases h
  exact ⟨rec, pool, device, haccepts, rfl, rfl⟩

/-! ## What comes of a submission -/

namespace Encoder

theorem run_firm (arena : Arena ν) (plan : PlanId) (device : Device ν α) (stages : List (Stage ν α)) :
    device.Firm (run arena plan device stages).2 := by
  obtain ⟨hs, hw⟩ := @run_writes _ _ arena plan _ _ _ _ device stages
  refine ⟨Nat.le_of_not_lt fun hlt => ?_, fun id _ => hw.size_block id, hs.faults⟩
  have hshape := hw.shape (run arena plan device stages).2.buffers.size
  rw [Heap.shape_eq_none.mpr (Nat.le_refl _), eq_comm, Heap.shape_eq_none] at hshape
  exact Nat.not_lt_of_le hshape hlt

end Encoder

def begun (e : Engine ν α) (plan : PlanId) (rec : PlanRecord ν α) (pool : Pool ν α) : Engine ν α :=
  { e with
    pool
    session := { e.session with
      consumed := plan :: e.session.consumed
      nextToken := e.session.nextToken + 1
      pending := e.session.pending ++ [(e.token, rec.plan.stages.flatMap Stage.handles)]
      unawaited := e.session.unawaited ++ [e.token] } }

theorem execute_eq (e : Engine ν α) (token : SubmissionId) (plan : PlanId) (p : Plan ν α) :
    ∃ device, (e.execute token plan p).2 = e.setDevice device ∧ e.pool.device.Firm device := by
  have hrest {d d' d'' : Device ν α} (h : d.Firm d') (h' : d'.Idles d'') : d.Firm d'' :=
    ⟨h'.buffers ▸ h.size, h'.buffers ▸ h.block, List.Subset.trans h'.faults h.faults⟩
  have hpush := Device.Idles.pushScopes e.pool.device
  unfold execute
  split
  all_goals
    rename_i heq
    rw [heq] at hpush
    have hopen : e.pool.device.Firm _ := hrest ⟨Nat.le_refl _, fun _ _ => rfl, List.Subset.refl _⟩ hpush
  · exact ⟨_, rfl, hopen⟩
  · rename_i device
    have hrun := Encoder.run_firm e.pool.arena plan device p.stages
    have hran : e.pool.device.Firm (Encoder.run e.pool.arena plan device p.stages).2 :=
      ⟨hpush.buffers ▸ hrun.size, hpush.buffers ▸ hrun.block, List.Subset.trans hrun.faults hpush.faults⟩
    exact ⟨_, rfl, hrest (hrest hran (.popScope _)) (.popScope _)⟩

/-- A plan is refused, references to its slots are refused, or it is submitted, be it that encoding cannot begin. -/
theorem submit_cases (e : Engine ν α) (plan : PlanId) :
    (e.submit plan).2 = e ∨
    (∃ (rec : PlanRecord ν α) (failure : Failure) (pool : Pool ν α), e.session.phase = .ready ∧ acquireAll e.pool []
      (rec.plan.stages.flatMap Stage.handles) = (.error failure, pool) ∧
      (e.submit plan).2 = { e with pool }) ∨
    ∃ (rec : PlanRecord ν α) (pool : Pool ν α) (device : Device ν α) (turns : _) (completion : _),
    e.session.phase = .ready ∧ e.turns ⊆ turns ∧
      acquireAll e.pool [] (rec.plan.stages.flatMap Stage.handles) = (.ok (), pool) ∧ pool.device.Firm device ∧
      (e.submit plan).2 = { (e.begun plan rec pool).setDevice device with turns, completion } := by
  unfold submit
  split
  · exact .inl rfl
  · exact .inl rfl
  · rename_i rec husable hrec
    have hready := Session.ready_of_usable husable
    split
    · exact .inl rfl
    · dsimp only
      split
      · rename_i heq
        exact .inr (.inl ⟨rec, _, _, hready, heq, rfl⟩)
      · rename_i pool heq
        refine .inr (.inr ?_)
        obtain ⟨device, hdevice, hfirm⟩ := (e.begun plan rec pool).execute_eq e.token plan rec.plan
        generalize hr : Engine.execute (_ : Engine ν α) _ _ _ = r
        obtain ⟨r, e'⟩ := r
        obtain rfl : e' = (e.begun plan rec pool).setDevice device := (congrArg Prod.snd hr).symm.trans hdevice
        cases r with
        | error failure => exact ⟨rec, pool, device, e.turns, _, hready, List.Subset.refl _, heq, hfirm, rfl⟩
        | ok encoded => exact ⟨rec, pool, device, _, _, hready, List.subset_append_left .., heq, hfirm, rfl⟩

end Engine

end Strata
