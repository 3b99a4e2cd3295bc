import Strata.Proofs.Engine.Attribution
import Strata.Proofs.Engine.Works
import Strata.Proofs.Memory.Budgets

/-!
# Where a call stands

A composite call remains what was asked for, and counts its attempts (`move_has`). While it waits for its submission
it stands where it stood, until it is resumed with an outcome of that submission (`drains_until_resumed`); and it is
resumed with nothing but what the submission came to, or because its signal was aborted (`Informed`).
-/

namespace Strata

variable {ν α : Type}

/-- The calls differ in where they stand only. -/
structure CompositeCall.Same (c c' : CompositeCall ν α) : Prop where
  layers : c'.layers = c.layers
  outputFormat : c'.outputFormat = c.outputFormat
  signal : c'.signal = c.signal
  verifies : c'.verifies = c.verifies
  retries : c'.retries = c.retries

theorem CompositeCall.Same.moved (c : CompositeCall ν α) (held : List Handle) (phase : AttemptPhase ν α) :
    c.Same { c with held, phase } := ⟨rfl, rfl, rfl, rfl, rfl⟩

theorem CompositeCall.Same.refl (c : CompositeCall ν α) : c.Same c := ⟨rfl, rfl, rfl, rfl, rfl⟩

theorem CompositeCall.Same.trans {c c' c'' : CompositeCall ν α} (h : c.Same c') (h' : c'.Same c'') : c.Same c'' :=
  ⟨h'.layers.trans h.layers, h'.outputFormat.trans h.outputFormat, h'.signal.trans h.signal,
    h'.verifies.trans h.verifies, h'.retries.trans h.retries⟩

theorem CompositeCall.Same.again {c c' : CompositeCall ν α} (h : c.Same c') :
    { c with retries := c.retries + 1 }.Same { c' with retries := c'.retries + 1 } :=
  ⟨h.layers, h.outputFormat, h.signal, h.verifies, congrArg (· + 1) h.retries⟩

/-- The turn lets a call go on after a submission. -/
def Turn.tells : Turn ν α → Bool
  | drained .. | resumed .. => true
  | _ => false

theorem Turn.not_tells_of_plain {x : Turn ν α} (h : x.plain = true) : x.tells = false := by
  cases x <;> first | rfl | cases h

theorem Turn.not_tells_of_carried {x : Turn ν α} {t : SubmissionId} (h : x.carried? = some t) :
    x.tells = false := by
  cases x <;> first | rfl | cases h

namespace Engine

/-- The call is there, wherever it stands. -/
def Has (e : Engine ν α) (j : JobId) (c : CompositeCall ν α) : Prop := ∃ c', e.call? j = some c' ∧ c.Same c'

variable {e e' : Engine ν α} {j i : JobId} {c c' : CompositeCall ν α} {m : Move ν α} {failure : Failure}

theorem Has.of_call (h : e.call? j = some c) : e.Has j c := ⟨c, h, .refl c⟩

theorem Has.of_eq (h : e.Has j c) (hcall : e'.call? j = e.call? j) : e'.Has j c := by
  obtain ⟨c', hc', hsame⟩ := h
  exact ⟨c', hcall.trans hc', hsame⟩

theorem Has.setCall (h : j < e.jobs.size) (hs : c.Same c') : (e.setCall j c').Has j c :=
  ⟨c', call?_setCall_self h c', hs⟩

section
variable [Measure ν]

theorem leave_has (h : e.Has j c) (owned : List Handle) (result : Except Failure (Raster ν α)) :
    (e.leave j owned result).Has j c := by
  obtain ⟨c', hc', hsame⟩ := h
  rw [leave_eq hc']
  exact ⟨_, call?_setCall_self (lt_of_call? hc') _, hsame.trans (.moved c' _ _)⟩

theorem leave_ends (hp : e.pool.Sound) (hd : e.pool.Destroys) (hc : e.call? j = some c) (owned : List Handle)
    (result : Except Failure (Raster ν α)) : ∃ pool, e.leave j owned result =
      (({ e with pool } : Engine ν α).setCall j { c with held := [], phase := .ended }).schedule 1
        (.attemptEnded j result) := by
  obtain ⟨-, -, hok⟩ := Pool.releaseLive_spec hp (c.held ++ owned)
  have hend : ((e.pool.releaseLive (c.held ++ owned)).endWith result).1 = result := by
    have hok := hok hd
    generalize e.pool.releaseLive (c.held ++ owned) = r at hok
    obtain ⟨r, pool⟩ := r
    cases hok
    rfl
  rw [leave_eq hc, hend]
  exact ⟨_, rfl⟩

omit [Measure ν] in
theorem pipelineArrived_has (hc : e.call? j = some c) (index : Nat) (result : Except Failure Pipeline) :
    (e.pipelineArrived j index result).Has j c := by
  have hset (p : Planning ν α) : (e.setPlanning j p).Has j c := by
    rw [setPlanning_eq hc]
    exact .setCall (lt_of_call? hc) (.moved c _ _)
  unfold pipelineArrived
  split
  · exact .of_call hc
  · split
    · exact .of_call hc
    · split
      · exact hset _
      · dsimp only
        split <;> exact hset _

section
variable [Channel α]

theorem planAttempt_has (hj : j < e.jobs.size) (c : CompositeCall ν α) (destination : Handle)
    (sources : List Handle) : (e.planAttempt j c destination sources).Has j c := by
  unfold planAttempt
  dsimp only
  split
  · exact leave_has (.setCall hj (.moved c _ _)) _ _
  · rename_i stack _
    have hjobs := (Aside.beginPlanning e j stack (uploadsOf c.layers sources)).jobs
    split
    all_goals
      rename_i heq
      rw [heq] at hjobs
    · exact Has.setCall (hjobs ▸ hj) (.moved c _ _)
    · exact .setCall (hjobs ▸ hj) (.moved c _ _)

theorem startAttempt_has (hj : j < e.jobs.size) (c : CompositeCall ν α) : (e.startAttempt j c).Has j c := by
  have hset (pool : Pool ν α) {c' : CompositeCall ν α} (hs : c.Same c') :
      (({ e with pool } : Engine ν α).setCall j c').Has j c := .setCall hj hs
  unfold startAttempt
  split
  · exact hset e.pool (.moved c _ _)
  · exact hset e.pool (.moved c _ _)
  · split
    · exact leave_has (hset _ (.moved c _ _)) _ _
    · dsimp only
      split
      · exact leave_has (hset _ (.moved c _ _)) _ _
      · rename_i pool _
        exact planAttempt_has (e := { e with pool }) hj c _ _

theorem startComposite_eq {layers options : Value α} {ls : List (Layer ν α)} {o : CompositeOptions}
    {verifies : Bool} (hlayers : parseLayers layers = .ok ls) (hoptions : parseOptions options = .ok o)
    (habort : e.abortReason? o.signal = none) : (e.startComposite layers options verifies).2 =
      (e.addJob .lookup).2.startAttempt e.jobs.size ⟨ls, o.outputFormat, o.signal, verifies, 0, [], .ended⟩ := by
  unfold startComposite
  dsimp only
  rw [hlayers, hoptions]
  dsimp only
  rw [show (e.addJob .lookup).2.abortReason? o.signal = none from habort]
  rfl

theorem startComposite_has (e : Engine ν α) (layers options : Value α) (verifies : Bool) :
    (e.startComposite layers options verifies).2.call? e.jobs.size = none ∨
    ∃ ls o, parseLayers layers = .ok ls ∧ parseOptions options = .ok o ∧ e.abortReason? o.signal = none ∧
      (e.startComposite layers options verifies).2.Has e.jobs.size
        ⟨ls, o.outputFormat, o.signal, verifies, 0, [], .ended⟩ := by
  have hlt : e.jobs.size < (e.addJob .lookup).2.jobs.size := Array.size_push .. ▸ Nat.lt_succ_self _
  have hnone : (e.addJob .lookup).2.call? e.jobs.size = none := Respects.call?_new e
  unfold startComposite
  dsimp only
  split
  · exact .inl hnone
  · exact .inl hnone
  · rename_i ls o hlayers hoptions
    split
    · exact .inl hnone
    · rename_i habort
      exact .inr ⟨ls, o, hlayers, hoptions, habort, startAttempt_has hlt _⟩

variable [Stored α]

theorem planReady_has (hc : e.call? j = some c) (result : Except Failure (List Pipeline)) :
    (e.planReady j result).Has j c := by
  have hmade (pool : Pool ν α) (plans : Array (PlanRecord ν α)) (result : Except Failure PlanId) :
      (({ e with pool, plans } : Engine ν α).planMade j result).Has j c := by
    rw [planMade_eq (e := { e with pool, plans }) hc]
    exact Has.setCall (e := { e with pool, plans }) (lt_of_call? hc) (.moved c _ _)
  unfold planReady
  split
  · exact .of_call hc
  · exact hmade e.pool e.plans _
  · split
    · exact hmade _ e.plans _
    · exact hmade _ _ _

variable [Transfer α]

theorem planned_has (hc : e.call? j = some c) : (e.planned j).Has j c := by
  unfold planned
  rw [hc]
  dsimp only
  split
  · exact leave_has (.of_call hc) _ _
  · rename_i plan _
    split
    · exact leave_has (.of_call hc) _ _
    · have hsubmit : (e.submit plan).2.call? j = some c := ((submit_bystands e plan).call? j).trans hc
      split
      all_goals
        rename_i heq
        rw [heq] at hsubmit
      · exact leave_has (.of_call hsubmit) _ _
      · rename_i token e'
        have hset : (e'.setCall j { c with phase := .draining plan token }).Has j c :=
          .setCall (lt_of_call? hsubmit) (.moved c _ _)
        have hwait {e'' : Engine ν α} (h : e''.Has j c) : (e''.waitFor j token).Has j c :=
          h.of_eq ((waitFor_bystands e'' j token).call? j)
        split
        · exact hwait (hset.of_eq rfl)
        · exact hwait hset
  · exact .of_call hc

theorem resumed_has (hc : e.call? j = some c) (t : SubmissionId) (o : Outcome) : (e.resumed j t o).Has j c := by
  unfold resumed
  rw [hc]
  dsimp only
  split
  · split
    · exact leave_has (.of_call hc) _ _
    · exact .of_call hc
  · exact .of_call hc

theorem resumed_leaves (hc : e.call? j = some c) {plan : PlanId} {t : SubmissionId}
    (hphase : c.phase = .draining plan t) (hlayers : c.layers ≠ [])
    (o : Outcome) : ∃ base, c.layers.head? = some base ∧
      e.resumed j t o = e.leave j (e.ownedBy plan) (o.map fun _ =>
        Raster.encode ((e.plans[plan]?.map PlanRecord.output).getD #[]) base.raster.width base.raster.height
          (c.outputFormat.getD base.raster.format)) := by
  obtain ⟨base, rest, hlayers⟩ := List.exists_cons_of_ne_nil hlayers
  refine ⟨base, by rw [hlayers]; rfl, ?_⟩
  unfold resumed
  rw [hc]
  dsimp only
  rw [hphase, hlayers]
  exact if_pos rfl

/-- An attempt that failed with the failure is to be made again. -/
def Retriable (e : Engine ν α) (c : CompositeCall ν α) (failure : Failure) : Prop :=
  failure.code? = some .outOfMemory ∧ c.retries < e.config.retries.getD 0

/-- The attempt ends with the failure, and another is made. -/
def Renews (e : Engine ν α) (m : Move ν α) (j : JobId) (failure : Failure) : Prop :=
  e.Takes m (.attemptEnded j (.error failure)) ∧ ∃ c, e.call? j = some c ∧ e.Retriable c failure

theorem attemptEnded_settles (hc : e.call? j = some c) {result : Except Failure (Raster ν α)}
    (hlast : ∀ failure, result = .error failure → ¬e.Retriable c failure) :
    ∃ log, e.attemptEnded j result = { e with log, settled := e.settled ++ [(j, result >>= e.answerOf c)] } := by
  unfold attemptEnded
  rw [hc]
  cases result with
  | ok raster =>
    dsimp only
    split
    · exact ⟨_, rfl⟩
    · exact ⟨e.log, rfl⟩
  | error failure =>
    dsimp only
    rw [if_neg
      (show ¬(failure.code? = some .outOfMemory ∧ c.retries < e.config.retries.getD 0) from hlast failure rfl)]
    exact ⟨e.log, rfl⟩

theorem attemptEnded_renews (hd : e.pool.Destroys) (hc : e.call? j = some c) (hr : e.Retriable c failure) :
    ∃ log, e.attemptEnded j (.error failure) =
      ({ e with log, pool := e.pool.trim.2 } : Engine ν α).startAttempt j { c with retries := c.retries + 1 } := by
  refine ⟨(e.report (.retrying (c.retries + 1) (e.config.retries.getD 0))).log, ?_⟩
  obtain ⟨hok, -⟩ := Pool.trim_stripped hd
  unfold attemptEnded
  rw [hc]
  dsimp only
  rw [if_pos (show failure.code? = some .outOfMemory ∧ c.retries < e.config.retries.getD 0 from hr)]
  split
  · rename_i pool heq
    rw [show e.pool.trim = (.ok (), pool) from heq]
    rfl
  · rename_i heq
    rw [show e.pool.trim = _ from heq] at hok
    cases hok

/-! ## Moves -/

theorem apply_cases (e : Engine ν α) (op : Operation ν α) :
    (op.needsSession = true ∧ e.supervised = false ∧ (e.apply op).2 = e) ∨ (e.apply op).2 = (e.carryOut op).2 := by
  unfold Engine.apply
  split
  · rename_i hrefused
    rw [Bool.and_eq_true, Bool.not_eq_true'] at hrefused
    exact .inl ⟨hrefused.1, hrefused.2, rfl⟩
  · exact .inr rfl

theorem apply_supervised (hs : e.supervised = true) (op : Operation ν α) : (e.apply op).2 = (e.carryOut op).2 :=
  (e.apply_cases op).resolve_left fun ⟨_, hnone, _⟩ => Bool.false_ne_true (hnone.symm.trans hs)

/-- A call that a turn goes on with stays what it was, unless its attempt is made again. -/
theorem perform_has (hc : e.call? j = some c) {x : Turn ν α} (hx : x.job? = some j)
    (hlast : ∀ failure, x = .attemptEnded j (.error failure) → ¬e.Retriable c failure) : (e.perform x).Has j c := by
  have hstands {e' : Engine ν α} (hb : e.Bystands e') : e'.Has j c := .of_call ((hb.call? j).trans hc)
  cases x with
  | pipelineArrived job index result =>
    cases hx
    exact pipelineArrived_has hc index result
  | planReady job result =>
    cases hx
    exact planReady_has hc result
  | planned job =>
    cases hx
    exact planned_has hc
  | collected job t o => exact hstands (collected_bystands e job t o)
  | drained job t o => exact hstands (drained_bystands e job t o)
  | resumed job t o =>
    cases hx
    exact resumed_has hc t o
  | attemptEnded job result =>
    cases hx
    obtain ⟨log, heq⟩ := attemptEnded_settles hc fun failure hf => hlast failure (congrArg _ hf)
    show (e.attemptEnded j result).Has j c
    rw [heq]
    exact .of_call hc
  | buildUngated | buildEnded | scopesClosed | workDone | mapped | rejected | finished | reported | lossSeen =>
      cases hx

theorem call?_kept (h : e.Tidy) (hc : e.call? j = some c) (hm : ∀ x, e.Takes m x → x.job? ≠ some j) :
    (e.move m).call? j = some c := by
  rw [← hc]
  refine (move_respects h m).calls j ?_
  rintro (⟨-, rfl⟩ | ⟨-, x, htakes, hx⟩)
  · rw [call?_of_size_le (Nat.le_refl _)] at hc
    cases hc
  · exact hm x htakes hx

theorem move_has (h : e.Tidy) (hc : e.call? j = some c) (hlast : ∀ failure, ¬e.Renews m j failure) :
    (e.move m).Has j c := by
  by_cases hx : ∃ x, e.Takes m x ∧ x.job? = some j
  · obtain ⟨x, htakes, hx⟩ := hx
    obtain ⟨delay, rest, -, heq⟩ := htakes.move_eq
    rw [heq]
    refine perform_has (e := { e with turns := rest }) hc hx fun failure hf hr =>
      hlast failure ⟨hf ▸ htakes, c, hc, hr⟩
  · exact .of_call (call?_kept h hc fun x htakes hjob => hx ⟨x, htakes, hjob⟩)

theorem renews_has (hd : e.pool.Destroys) (hc : e.call? j = some c) (hr : e.Renews m j failure) :
    (e.move m).Has j { c with retries := c.retries + 1 } := by
  obtain ⟨htakes, c', hc', hretriable⟩ := hr
  cases hc.symm.trans hc'
  obtain ⟨delay, rest, -, heq⟩ := htakes.move_eq
  obtain ⟨log, hrenews⟩ := attemptEnded_renews (e := { e with turns := rest }) hd hc hretriable
  rw [heq]
  show (Engine.attemptEnded _ j _).Has j _
  rw [hrenews]
  refine startAttempt_has ?_ _
  exact lt_of_call? hc

/-- A call that waits for its submission stands where it stood, until it is resumed. -/
theorem drains_until_resumed (h : e.Tidy) (hc : e.call? j = some c) (hp : e.Poised j c) {plan : PlanId}
    {t : SubmissionId} (hphase : c.phase = .draining plan t) (hm : ∀ o, ¬e.Takes m (.resumed j t o)) :
    (e.move m).call? j = some c := by
  have hends : e.ends j = 0 := by
    rw [hp.ends, hphase]
    rfl
  have hidle : e.planning? j = none := by
    cases hplanning : e.planning? j with
    | none => rfl
    | some p => cases hphase.symm.trans (Works.planning?_eq hc hplanning)
  rcases e.move_cases m with ⟨op, rfl⟩ | ⟨x, delay, rest, htakes, hperm, heq⟩ | ⟨hnone, -⟩
  · exact call?_kept h hc fun x htakes => htakes.elim
  · -- only a turn that is for the call itself could move it on
    by_cases hx : x.job? = some j
    · rw [heq]
      let e₁ : Engine ν α := { e with turns := rest }
      have hc₁ : e₁.call? j = some c := hc
      show (e₁.perform x).call? j = some c
      cases x with
      | pipelineArrived job index result =>
        cases hx
        show (e₁.pipelineArrived j index result).call? j = some c
        unfold pipelineArrived
        rw [show e₁.planning? j = none from hidle]
        exact hc₁
      | planReady job result =>
        cases hx
        show (e₁.planReady j result).call? j = some c
        unfold planReady
        rw [show e₁.planning? j = none from hidle]
        exact hc₁
      | planned job =>
        cases hx
        show (e₁.planned j).call? j = some c
        unfold planned
        rw [hc₁]
        dsimp only
        rw [hphase]
        exact hc₁
      | collected job t' o => exact ((collected_bystands e₁ job t' o).call? j).trans hc₁
      | drained job t' o => exact ((drained_bystands e₁ job t' o).call? j).trans hc₁
      | resumed job t' o =>
        cases hx
        have hne : t ≠ t' := fun heq => hm o (heq ▸ htakes)
        show (e₁.resumed j t' o).call? j = some c
        unfold resumed
        rw [hc₁]
        dsimp only
        rw [hphase]
        split
        · rename_i hplan _
          cases hplan
          rw [if_neg hne]
          exact hc₁
        · exact hc₁
      | attemptEnded job result =>
        cases hx
        -- the attempt of a call that waits has not ended, so no such turn is queued
        rw [ends_take hperm j, show (Turn.attemptEnded j result : Turn ν α).endsAttempt j =
          true from beq_self_eq_true j]
          at hends
        cases hends
      | buildUngated | buildEnded | scopesClosed | workDone | mapped | rejected | finished | reported | lossSeen =>
          cases hx
    · exact call?_kept h hc fun x' htakes' => htakes'.unique htakes ▸ hx
  · exact call?_kept h hc fun x htakes => absurd htakes (hnone x)

/-! ## What calls are told -/

omit [Measure ν] [Channel α] [Stored α] [Transfer α] in
theorem scheduleAll_eq {β : Type} (l : List β) (delay : Nat) (f : β → Turn ν α) (e : Engine ν α) :
    l.foldl (fun e x => e.schedule delay (f x)) e = { e with turns := e.turns ++ l.map fun x => (delay, f x) } := by
  induction l generalizing e with
  | nil => simp
  | cons x l ih =>
    refine (ih _).trans ?_
    simp [schedule]

omit [Measure ν] [Channel α] [Stored α] [Transfer α] in
theorem abort_eq (e : Engine ν α) (signal : SignalId) (reason : Option Raised) :
    e.abort signal reason = e ∧ (e.signals.getD signal none).isSome ∨
    e.signals.getD signal none = none ∧ e.abort signal reason = { e with
      signals := e.signals.setIfInBounds signal (some (abortFailure reason))
      listeners := e.listeners.filter (·.1 != signal)
      turns := e.turns ++ (e.listeners.filter (·.1 == signal)).map fun l =>
        (1, .resumed l.2.1 l.2.2 (.error (abortFailure reason))) } := by
  unfold abort
  cases h : e.signals.getD signal none with
  | some failure => exact .inl ⟨if_pos rfl, rfl⟩
  | none => exact .inr ⟨rfl, scheduleAll_eq ..⟩

omit [Measure ν] [Channel α] [Stored α] [Transfer α] in
theorem waitFor_suspends (h : e.completion.Sane) {t : SubmissionId} {ws : List JobId}
    (hw : e.completion.status t = .waiting ws) (hu : t ∈ e.session.unawaited) (hd : e.session.phase ≠ .destroyed) :
    e.waitFor j t = { e with
      session := { e.session with unawaited := e.session.unawaited.erase t }
      completion := (e.completion.wait t j).2 } := by
  obtain ⟨-, hsuspended, -⟩ := Completion.wait_waiting h hw j
  unfold waitFor
  rw [if_neg hd, if_neg (not_not.mpr hu)]
  dsimp only
  generalize e.completion.wait t j = r at hsuspended
  obtain ⟨reply, completion⟩ := r
  cases hsuspended
  rfl

/-- What a submission for a call changes: its first turn is due, and the call waits, and listens to its signal. -/
theorem SubmitsFor.stands {B : Books ν α} (h : e.Life B []) {plan : PlanId} {t : SubmissionId}
    (hs : e.SubmitsFor m j plan t) :
    ∃ delay rest s c, e.turns.Perm ((delay, .planned j) :: rest) ∧ e.call? j = some c ∧
      (e.move m).turns = rest ++ [(2, .scopesClosed s)] ∧
      (e.move m).listeners = e.listeners ++ c.signal.toList.map (·, j, t) ∧
      (e.move m).call? j = some { c with phase := .draining plan t } := by
  obtain ⟨htakes, c, hc, hphase, habort, hsubmit⟩ := hs
  obtain ⟨rec, pool, device, haccepts, rfl⟩ := accepts_of_ok hsubmit
  obtain ⟨delay, rest, hperm, heq⟩ := htakes.move_eq
  let e₁ : Engine ν α := { e with turns := rest }
  have haccepts' : e₁.Accepts plan rec pool device :=
    ⟨haccepts.ready, haccepts.record, haccepts.fresh, haccepts.acquired, haccepts.opened⟩
  obtain ⟨hsane, hstatus, -⟩ := Completion.watch_spec h.sane h.fresh.2.1
  let e₂ : Engine ν α :=
    { (e₁.submitting plan rec pool device).setCall j { c with phase := .draining plan e.token } with
      listeners := e.listeners ++ c.signal.toList.map (·, j, e.token) }
  have hready : e₂.session.phase ≠ .destroyed := by
    rw [show e₂.session.phase = .ready from haccepts.ready]
    decide
  have hwait := waitFor_suspends (j := j) (e := e₂) hsane hstatus
    (List.mem_append_right _ (List.mem_singleton_self _)) hready
  have hmove : e.move m = e₂.waitFor j e.token :=
    heq.trans (planned_submits (e := e₁) hc hphase habort haccepts')
  rw [hmove, hwait]
  refine ⟨delay, rest, (ran e.token plan pool.arena device rec.plan.stages).1, c, hperm, hc, rfl, rfl, ?_⟩
  exact call?_setCall_self (e := e₁.submitting plan rec pool device) (lt_of_call? hc) _

/-- A call that goes on with its plan submits it, or ends its attempt and leaves the session as it is. -/
theorem planned_submits_or (h : e.Able deliveryCalls) (j : JobId) :
    (∃ c plan t, e.call? j = some c ∧ c.phase = .planned (.ok plan) ∧ e.abortReason? c.signal = none ∧
      (e.submit plan).1 = .ok t) ∨ e.PutsPlain (e.planned j) ∧ (e.planned j).session = e.session := by
  have hleave {e' : Engine ν α} (h : e.PutsPlain e') (hs : e'.session = e.session) (owned : List Handle)
      (result : Except Failure (Raster ν α)) :
      e.PutsPlain (e'.leave j owned result) ∧ (e'.leave j owned result).session = e.session :=
    ⟨h.trans (leave_puts e' j owned result), (leave_chores e' j owned result).session.trans hs⟩
  unfold planned
  split
  · rename_i c hc
    split
    · exact .inr (hleave (.refl e) rfl _ _)
    · rename_i plan hphase
      split
      · exact .inr (hleave (.refl e) rfl _ _)
      · rename_i habort
        split
        · rename_i failure e' heq
          obtain ⟨pool, -, -, rfl⟩ := submit_refused h heq
          have hpool : e.PutsPlain { e with pool } := .of_eq rfl rfl rfl rfl
          exact .inr (hleave hpool rfl _ _)
        · rename_i t e' heq
          exact .inl ⟨c, plan, t, hc, hphase, habort, congrArg Prod.fst heq⟩
    · exact .inr ⟨.refl e, rfl⟩
  · exact .inr ⟨.refl e, rfl⟩

section
omit [Measure ν] [Channel α] [Stored α] [Transfer α]

/-- Calls are told of submissions by new turns with the property only. -/
def News (e e' : Engine ν α) (P : Turn ν α → Prop) : Prop :=
  ∀ x ∈ e'.turns, x.2.tells = true → x.2 ∈ e.turns.map (·.2) ∨ P x.2

variable {P Q : Turn ν α → Prop}

theorem News.of_perm (h : (e'.turns.map (·.2)).Perm (e.turns.map (·.2))) : e.News e' P :=
  fun _ hx _ => .inl (h.subset (List.mem_map_of_mem hx))

/-- Of what one turn puts, after it was taken. -/
theorem News.of_puts {x : Nat × Turn ν α} {rest : List (Nat × Turn ν α)} (hperm : e.turns.Perm (x :: rest))
    {e₀ : Engine ν α} (hturns : e₀.turns = rest) (h : e₀.Puts Q e') (hQ : ∀ y, Q y → y.tells = true → P y) :
    e.News e' P :=
  fun y hy htells =>
    (h.mem hy).imp (fun hold => List.mem_map_of_mem (hperm.symm.subset (List.mem_cons_of_mem _ (hturns ▸ hold))))
    fun hnew => hQ y.2 hnew htells

theorem News.of_op (h : e.Puts Q e') (hQ : ∀ y, Q y → y.tells = true → P y) : e.News e' P :=
  fun y hy htells => (h.mem hy).imp (List.mem_map_of_mem ·) fun hnew => hQ y.2 hnew htells

end

/-- What a move does for calls that wait for submissions: whom it tells, who listens, and which signals are aborted.
-/
inductive Informs (e : Engine ν α) (m : Move ν α) (e' : Engine ν α) : Prop
  | nobody (news : e.News e' fun _ => False) (listeners : e'.listeners = e.listeners)
      (signals : e'.signals = e.signals ∨ e'.signals = e.signals.push none)
  | submits {j : JobId} {plan : PlanId} {t : SubmissionId} {c : CompositeCall ν α}
      (submits : e.SubmitsFor m j plan t) (call : e.call? j = some c)
      (drains : e'.call? j = some { c with phase := .draining plan t }) (news : e.News e' fun _ => False)
      (listeners : e'.listeners = e.listeners ++ c.signal.toList.map (·, j, t)) (signals : e'.signals = e.signals)
  | collects {j : JobId} {t : SubmissionId} {o : Outcome} (takes : e.Takes m (.collected j t o))
      (news : e.News e' fun x => ∃ c, e.call? j = some c ∧
        x = if c.signal.isSome then .drained j t o else .resumed j t o)
      (listeners : e'.listeners = e.listeners) (signals : e'.signals = e.signals)
  | drains {j : JobId} {t : SubmissionId} {o : Outcome} (takes : e.Takes m (.drained j t o))
      (news : e.News e' fun x => x = .resumed j t o ∧ ∃ l ∈ e.listeners, l.2 = (j, t))
      (listeners : e'.listeners = e.listeners.filter fun l => l.2 != (j, t)) (signals : e'.signals = e.signals)
  | aborts {signal : SignalId} {reason : Option Raised} (calls : m = .call (.abort signal reason))
      (first : e.signals.getD signal none = none)
      (turns : e'.turns = e.turns ++ (e.listeners.filter (·.1 == signal)).map fun l =>
        (1, .resumed l.2.1 l.2.2 (.error (abortFailure reason))))
      (listeners : e'.listeners = e.listeners.filter (·.1 != signal))
      (signals : e'.signals = e.signals.setIfInBounds signal (some (abortFailure reason)))

theorem perform_informs {B : Books ν α} (h : e.Life B []) {x : Turn ν α} {delay : Nat}
    {rest : List (Nat × Turn ν α)} (htakes : e.Takes m x) (hperm : e.turns.Perm ((delay, x) :: rest))
    (heq : e.move m = ({ e with turns := rest } : Engine ν α).perform x) : e.Informs m (e.move m) := by
  let e₁ : Engine ν α := { e with turns := rest }
  have hnobody {Q : Turn ν α → Prop} (e₀ : Engine ν α) (hturns : e₀.turns = rest)
      (hlisteners : e₀.listeners = e.listeners) (hsignals : e₀.signals = e.signals)
      (hput : e₀.Puts Q (e₁.perform x)) (hQ : ∀ y, Q y → y.tells = false) : e.Informs m (e.move m) := by
    rw [← heq] at hput
    have hnews : e.News (e.move m) fun _ => False :=
      .of_puts hperm hturns hput fun y hy htells => by simp [hQ y hy] at htells
    exact .nobody hnews (hput.listeners.trans hlisteners) (.inl (hput.signals.trans hsignals))
  have hplain (hput : e₁.PutsPlain (e₁.perform x)) : e.Informs m (e.move m) :=
    hnobody e₁ rfl rfl rfl hput fun _ => Turn.not_tells_of_plain
  have hcarries {t : SubmissionId} (hput : e₁.Puts (fun y => y.carried? = some t) (e₁.perform x)) :
      e.Informs m (e.move m) := hnobody e₁ rfl rfl rfl hput fun _ => Turn.not_tells_of_carried
  cases x with
  | planned j =>
    have hable : e₁.Able deliveryCalls := ⟨h.able.pool, h.able.sorted⟩
    -- the submission is accepted over the turns that are left as it is over all of them
    rcases planned_submits_or hable j with ⟨c, plan, t, hc, hphase, habort, hok⟩ | ⟨hput, -⟩
    · obtain ⟨rec, pool, device, haccepts, ht⟩ := accepts_of_ok hok
      have haccepts' : e.Accepts plan rec pool device :=
        ⟨haccepts.ready, haccepts.record, haccepts.fresh, haccepts.acquired, haccepts.opened⟩
      have hsubmits : e.SubmitsFor m j plan t :=
        ⟨htakes, c, hc, hphase, habort, ht ▸ congrArg Prod.fst haccepts'.submit⟩
      obtain ⟨delay', rest', s, c', hperm', hc', hturns, hlisteners, hcall⟩ := hsubmits.stands h
      refine .submits hsubmits hc' hcall (fun y hy htells => .inl ?_) hlisteners ?_
      · rw [hturns] at hy
        rcases List.mem_append.mp hy with hy | hy
        · exact List.mem_map_of_mem (hperm'.symm.subset (List.mem_cons_of_mem _ hy))
        · rw [List.mem_singleton.mp hy] at htells
          cases htells
      · rw [heq]
        exact (planned_puts (P := fun _ => True) e₁ j (fun _ _ => trivial) (fun _ _ => trivial)
          fun _ _ _ _ => trivial).signals
    · exact hplain hput
  | scopesClosed s =>
    exact hnobody { e₁ with heldBack := (e₁.scopesClosed s).heldBack } rfl rfl rfl (scopesClosed_puts e₁ s).2
      fun _ => Turn.not_tells_of_carried
  | workDone s o => exact hcarries (workDone_puts e₁ s o)
  | mapped t ds o => exact hcarries (mapped_puts e₁ t ds o)
  | rejected t failure => exact hcarries (.schedule e₁ 1 rfl)
  | finished t o => exact hcarries (finished_puts e₁ t o)
  | collected j t o =>
    have hput : e₁.Puts (fun x => ∃ c, e.call? j = some c ∧
        x = if c.signal.isSome then .drained j t o else .resumed j t o) (e.move m) :=
      heq ▸ collected_puts e₁ j t o fun c hc => ⟨c, hc, rfl⟩
    exact .collects htakes (.of_puts hperm rfl hput fun _ hy _ => hy) hput.listeners hput.signals
  | drained j t o =>
    have hput : ({ e₁ with listeners := e₁.listeners.filter fun l => l.2 != (j, t) } : Engine ν α).Puts
        (fun x => x = .resumed j t o ∧ ∃ l ∈ e.listeners, l.2 = (j, t)) (e.move m) :=
      heq ▸ drained_puts e₁ j t o
    exact .drains htakes (.of_puts hperm rfl hput fun _ hy _ => hy) hput.listeners hput.signals
  | buildUngated | buildEnded | pipelineArrived | planReady | reported | lossSeen | resumed | attemptEnded =>
    exact hplain (perform_puts e₁ rfl)

theorem apply_informs (e : Engine ν α) (op : Operation ν α) :
    e.Informs (.call op) (e.move (.call op)) := by
  have hnobody {Q : Turn ν α → Prop} (hput : e.Puts Q (e.apply op).2) (hQ : ∀ y, Q y → y.tells = false) :
      e.Informs (.call op) (e.move (.call op)) :=
    .nobody (.of_op hput fun y hy htells => by simp [hQ y hy] at htells) hput.listeners (.inl hput.signals)
  by_cases hrelays : op.relays = false
  · exact hnobody (apply_puts e hrelays) fun y => Turn.not_tells_of_plain
  rcases e.apply_cases op with ⟨-, -, hrefused⟩ | hcarry
  · exact hnobody (Q := fun _ => False) (.of_eq (congrArg _ hrefused) (congrArg _ hrefused) (congrArg _ hrefused)
      (congrArg _ hrefused)) fun _ => False.elim
  cases op with
  | submit plan =>
    have hput : e.Puts (fun x => ∃ s, x = .scopesClosed s ∧ s.token = e.token) (e.apply (.submit plan)).2 :=
      hcarry ▸ submit_puts e plan
    exact hnobody hput fun y ⟨s, hs, _⟩ => hs ▸ rfl
  | newSignal =>
    have hmove : e.move (.call .newSignal) = { e with signals := e.signals.push none } := hcarry
    rw [hmove]
    exact .nobody (.of_perm (.refl _)) rfl (.inr rfl)
  | abort signal reason =>
    have hmove : e.move (.call (.abort signal reason)) = e.abort signal reason := hcarry
    rw [hmove]
    rcases e.abort_eq signal reason with ⟨heq, -⟩ | ⟨hfirst, heq⟩
    · rw [heq]
      exact .nobody (.of_perm (.refl _)) rfl (.inl rfl)
    · exact .aborts rfl hfirst (heq ▸ rfl) (heq ▸ rfl) (heq ▸ rfl)
  | unhold =>
    have hunheld {e' : Engine ν α} (hput : e.Puts (fun y => y.tells = false) { e' with heldBack := e.heldBack }) :
        e.Informs (.call .unhold) e'.unhold := by
      have hall : ({ e' with
          heldBack := [], pool := { e'.pool with device := { e'.pool.device with held := false } } } :
            Engine ν α).Puts
          (fun y => y.tells = false) e'.unhold :=
        .scheduleAll e'.heldBack (fun _ => 1) (fun s => .workDone s (.ok ())) (fun _ _ => rfl) _
      refine .nobody (fun y hy htells => ?_) (hall.listeners.trans hput.listeners)
        (.inl (hall.signals.trans hput.signals))
      rcases hall.mem hy with hold | hnew
      · exact (hput.mem hold).imp (List.mem_map_of_mem ·) fun hnew => by simp [hnew] at htells
      · simp [hnew] at htells
    show e.Informs (.call .unhold) (e.apply .unhold).2
    rw [hcarry]
    exact Attempt.andThen_keeps (P := fun e' : Engine ν α => e.Informs (.call .unhold) e')
      (.nobody (.of_perm (.refl _)) rfl (.inl rfl)) fun _ _ => hunheld (.of_eq rfl rfl rfl rfl)
  | _ => exact absurd rfl hrelays

theorem move_informs {B : Books ν α} (h : e.Life B []) (m : Move ν α) : e.Informs m (e.move m) := by
  rcases e.move_cases m with ⟨op, rfl⟩ | ⟨x, delay, rest, htakes, hperm, heq⟩ | ⟨-, turns, hperm, heq⟩
  · exact apply_informs e op
  · exact perform_informs h htakes hperm heq
  · rw [heq]
    exact .nobody (.of_perm hperm) rfl (.inl rfl)

section
omit [Measure ν] [Channel α] [Stored α] [Transfer α]

/-- A call is resumed with a submission that was issued, and that has settled unless the call can be aborted. -/
def Warrants (e : Engine ν α) : Turn ν α → Prop
  | .resumed j t _ => e.Issued t ∧ ∃ c, e.call? j = some c ∧ (c.signal = none → e.Settled t)
  | _ => True

structure Informed (e : Engine ν α) : Prop where
  turns : ∀ x ∈ e.turns, e.Warrants x.2
  listeners : ∀ l ∈ e.listeners, e.Issued l.2.2 ∧ ∃ c, e.call? l.2.1 = some c ∧ c.signal = some l.1

/-- What was issued or has settled is so still, and so is what a call listens to. -/
structure Upholds (e e' : Engine ν α) : Prop where
  issued : ∀ t, e.Issued t → e'.Issued t
  settled : ∀ t, e.Settled t → e'.Settled t
  signal : ∀ j c, e.call? j = some c → ∃ c', e'.call? j = some c' ∧ c'.signal = c.signal

theorem Warrants.of_quiet {x : Turn ν α} (hx : x.tells = false) : e.Warrants x := by
  cases x <;> trivial

theorem Warrants.upheld {x : Turn ν α} (h : e.Warrants x) (hu : e.Upholds e') : e'.Warrants x := by
  cases x with
  | resumed j t o =>
    obtain ⟨hissued, c, hc, hsettled⟩ := h
    obtain ⟨c', hc', heq⟩ := hu.signal j c hc
    exact ⟨hu.issued t hissued, c', hc', fun hnone => hu.settled t (hsettled (heq ▸ hnone))⟩
  | _ => trivial

/-- New turns are right, and so are new listeners. -/
theorem Informed.upheld (h : e.Informed) (hu : e.Upholds e') {P : Turn ν α → Prop} (hnews : e.News e' P)
    (hP : ∀ x, P x → e'.Warrants x) (hlisteners : ∀ l ∈ e'.listeners, l ∈ e.listeners ∨
      e'.Issued l.2.2 ∧ ∃ c, e'.call? l.2.1 = some c ∧ c.signal = some l.1) : e'.Informed := by
  refine ⟨fun x hx => ?_, fun l hl => ?_⟩
  · by_cases htells : x.2.tells = true
    · rcases hnews x hx htells with hold | hnew
      · obtain ⟨y, hy, heq⟩ := List.mem_map.mp hold
        exact heq ▸ (h.turns y hy).upheld hu
      · exact hP _ hnew
    · exact .of_quiet (by simpa using htells)
  · rcases hlisteners l hl with hold | hnew
    · obtain ⟨hissued, c, hc, hsignal⟩ := h.listeners l hold
      obtain ⟨c', hc', heq⟩ := hu.signal _ c hc
      exact ⟨hu.issued _ hissued, c', hc', heq.trans hsignal⟩
    · exact hnew

end

/-- What is done for submissions and calls is in order. -/
structure Tended (B : Books ν α) (e : Engine ν α) : Prop where
  life : e.Life B []
  tidy : e.Tidy
  poised : ∀ i c, e.call? i = some c → e.Poised i c
  layered : ∀ i c, e.call? i = some c → c.layers ≠ []
  informed : e.Informed

variable {B : Books ν α}

omit [Channel α] [Stored α] [Transfer α] in
theorem Tended.destroys (h : e.Tended B) : e.pool.Destroys := h.life.able.pool.destroys (by simp [deliveryCalls])

theorem move_asked (htidy : e.Tidy) (hd : e.pool.Destroys) (hc : e.call? j = some c) (m : Move ν α) :
    ∃ c', (e.move m).call? j = some c' ∧ c'.signal = c.signal ∧ c'.layers = c.layers := by
  by_cases hr : ∃ failure, e.Renews m j failure
  · obtain ⟨failure, hr⟩ := hr
    obtain ⟨c', hc', hsame⟩ := renews_has hd hc hr
    exact ⟨c', hc', hsame.signal, hsame.layers⟩
  · obtain ⟨c', hc', hsame⟩ := move_has htidy hc fun failure hf => hr ⟨failure, hf⟩
    exact ⟨c', hc', hsame.signal, hsame.layers⟩

theorem Tended.upholds (h : e.Tended B) (hm : m.LeavesDelivery) : e.Upholds (e.move m) :=
  ⟨(run_ages h.life.able.sorted [m]).1.issued, fun _ => move_settled h.life hm,
    fun _ _ hc => (move_asked h.tidy h.destroys hc m).imp fun _ hc' => ⟨hc'.1, hc'.2.1⟩⟩

theorem Tended.layered_step (h : e.Tended B) (m : Move ν α) :
    ∀ i c, (e.move m).call? i = some c → c.layers ≠ [] := by
  intro i c hc
  cases hcall : e.call? i with
  | some c₀ =>
    obtain ⟨c', hc', -, hlayers⟩ := move_asked h.tidy h.destroys hcall m
    cases hc.symm.trans hc'
    exact hlayers ▸ h.layered i c₀ hcall
  | none =>
    by_cases hw : e.WorksFor m i
    · obtain ⟨⟨layers, options, verifies, rfl⟩, rfl⟩ := hw.resolve_right fun ⟨hsome, _⟩ => by simp [hcall] at hsome
      change (e.apply (.composite layers options verifies)).2.call? e.jobs.size = some c at hc
      rcases e.apply_cases (.composite layers options verifies) with ⟨-, -, heq⟩ | heq
      · rw [heq, hcall] at hc
        cases hc
      · rw [heq] at hc
        rcases e.startComposite_has layers options verifies with hnone | ⟨ls, o, hparsed, -, -, c', hc', hsame⟩
        · cases hc.symm.trans hnone
        · cases hc.symm.trans hc'
          exact hsame.layers ▸ (parseLayers_ok hparsed).1
    · rw [(move_respects h.tidy m).calls i hw, hcall] at hc
      cases hc

theorem Tended.informed_step (h : e.Tended B) (hm : m.LeavesDelivery) : (e.move m).Informed := by
  have hup := h.upholds hm
  have hlistens {l : SignalId × JobId × SubmissionId} (hl : l ∈ e.listeners) :
      (e.move m).Issued l.2.2 ∧ ∃ c, (e.move m).call? l.2.1 = some c ∧ c.signal = some l.1 := by
    obtain ⟨hissued, c, hc, hsignal⟩ := h.informed.listeners l hl
    obtain ⟨c', hc', heq⟩ := hup.signal _ c hc
    exact ⟨hup.issued _ hissued, c', hc', heq.trans hsignal⟩
  cases move_informs h.life m with
  | nobody hnews hlisteners _ =>
    exact h.informed.upheld hup hnews (fun _ => False.elim) fun l hl => .inl (hlisteners ▸ hl)
  | @submits j plan t c hsubmits hc hcall hnews hlisteners _ =>
    refine h.informed.upheld hup hnews (fun _ => False.elim) fun l hl => ?_
    rw [hlisteners] at hl
    refine (List.mem_append.mp hl).imp_right fun hl => ?_
    obtain ⟨signal, hsignal, rfl⟩ := List.mem_map.mp hl
    exact ⟨Submits.issued (.inr ⟨j, hsubmits⟩) h.life.first, _, hcall, Option.mem_toList.mp hsignal⟩
  | @collects j t o htakes hnews hlisteners _ =>
    obtain ⟨delay, hdue⟩ := htakes.mem
    have hallows : B.Allows e (.collected j t o) := h.life.allows _ (List.mem_map_of_mem hdue)
    have hissued : e.Issued t := (h.life.verdicts t o hallows.2.2.1).1
    refine h.informed.upheld hup hnews ?_ fun l hl => .inl (hlisteners ▸ hl)
    rintro x ⟨c, hc, rfl⟩
    obtain ⟨c', hc', hsame⟩ := hup.signal j c hc
    cases hsignal : c.signal with
    | some signal => trivial
    | none => exact ⟨hup.issued t hissued, c', hc', fun _ => hup.settled t ⟨hissued, hallows.1⟩⟩
  | @drains j t o htakes hnews hlisteners _ =>
    refine h.informed.upheld hup hnews ?_ fun l hl => .inl (List.mem_filter.mp (hlisteners ▸ hl)).1
    rintro x ⟨rfl, l, hl, heq⟩
    obtain ⟨hissued, c, hc, hsignal⟩ := hlistens hl
    rw [heq] at hissued hc
    exact ⟨hissued, c, hc, fun hnone => by cases hsignal.symm.trans hnone⟩
  | @aborts signal reason _ _ hturns hlisteners _ =>
    refine h.informed.upheld hup (P := fun x => ∃ l ∈ e.listeners,
      x = .resumed l.2.1 l.2.2 (.error (abortFailure reason)))
      (fun x hx _ => ?_) ?_ fun l hl => .inl (List.mem_filter.mp (hlisteners ▸ hl)).1
    · rw [hturns] at hx
      refine (List.mem_append.mp hx).imp (List.mem_map_of_mem ·) fun hx => ?_
      obtain ⟨l, hl, rfl⟩ := List.mem_map.mp hx
      exact ⟨l, (List.mem_filter.mp hl).1, rfl⟩
    · rintro x ⟨l, hl, rfl⟩
      obtain ⟨hissued, c, hc, hsignal⟩ := hlistens hl
      exact ⟨hissued, c, hc, fun hnone => by cases hsignal.symm.trans hnone⟩

theorem move_deeds_spares (h : e.Able deliveryCalls) (hm : m.LeavesDelivery) :
    ∃ turns ⊆ e.turns, Deeds (Pool.Request.Spares [.destroyBuffer]) { e with turns } (e.move m) :=
  move_deeds h.sorted m (fun _ => trivial) (fun op r _ hr => by cases op <;> cases hr <;> trivial)
    fun call raised hop x hx => by
      subst hop
      rcases List.mem_append.mp hx with hx | hx
      · exact fun hmem => h.pool.faults x hx (List.mem_of_mem_take (i := 1) hmem)
      · rw [List.mem_singleton.mp hx]
        exact fun hmem => hm (List.mem_of_mem_take (i := 1) hmem)

theorem Tended.move (h : e.Tended B) (hm : m.LeavesDelivery) : ∃ B', B.Extends B' ∧ (e.move m).Tended B' := by
  obtain ⟨B', hadds, hlife⟩ := move_life h.life hm
  have hable : e.Able [.destroyBuffer] := h.life.able.mono (by simp [deliveryCalls])
  have hrespects := move_respects h.tidy m
  obtain ⟨turns, -, hdeeds⟩ := move_deeds_spares h.life.able hm
  have hlater : e.pool.arena.Later (e.move m).pool.arena :=
    Deeds.later (e := { e with turns }) (fun _ => id) ⟨hable.pool, hable.sorted⟩ hdeeds
  refine ⟨B', hadds.books, hlife, hrespects.tidy, fun i c hc => ?_, h.layered_step m, h.informed_step hm⟩
  by_cases hi : e.WorksFor m i
  · exact (move_works hable h.tidy (h.poised i) hi).poised c hc
  · exact (hrespects.skips hi).poised (h.poised i) hlater c hc

theorem Tended.run (h : e.Tended B) {moves : List (Move ν α)} (hm : ∀ m ∈ moves, m.LeavesDelivery) :
    ∃ B', B.Extends B' ∧ (e.run moves).Tended B' := by
  induction moves generalizing e B with
  | nil => exact ⟨B, .refl B, h⟩
  | cons m moves ih =>
    obtain ⟨B', hbooks, h'⟩ := h.move (hm m (List.mem_cons_self ..))
    obtain ⟨B'', hbooks', h''⟩ := ih h' fun m' hm' => hm m' (List.mem_cons_of_mem _ hm')
    exact ⟨B'', hbooks.trans hbooks', h''⟩

omit [Stored α] [Transfer α] in
theorem Opened.tended (h : e.Opened) (hd : ∀ x ∈ e.pool.device.faults, x.1 ∉ deliveryCalls) : e.Tended {} := by
  have hlife := h.life hd
  obtain ⟨device, o, config, rfl⟩ := h.eq
  refine ⟨hlife, ⟨fun i ⟨b, hb, _⟩ => absurd hb List.not_mem_nil, fun i _ => rfl⟩,
    fun i c hc => ?_, fun i c hc => ?_, ?_, ?_⟩
  · cases hc
  · cases hc
  · exact fun x hx => absurd hx List.not_mem_nil
  · exact fun l hl => absurd hl List.not_mem_nil

end

end

end Engine

end Strata
