import Strata.Proofs.Engine.Able
import Strata.Proofs.Engine.Turns

/-!
# A submission drains

In a calm session, a submission that was encoded is waited out step by step: its scopes have captured nothing, the
queue is done with it, its download is mapped and read, its references are dropped, and the call that waits for it
is told, leaves its attempt with the output of its plan and answers (`Sent.answers`).
-/

namespace Strata

variable {α : Type}

namespace Completion

variable {W : Type} {c : Completion W} {id : SubmissionId}

/-- Who waits for a submission that nobody knew before is the one who is woken. -/
theorem hears (h : id ∉ c.ids) (w : W) : ((c.watch id).wait id w).1 = .suspended ∧
    ∀ outcome, (((c.watch id).wait id w).2.settle id outcome).1 = [(w, outcome)] := by
  cases c with
  | reactor r =>
    obtain ⟨inFlight, retained, listeners⟩ := r
    unfold ids at h
    simp only [List.mem_append, not_or] at h
    obtain ⟨⟨hflight, hkept⟩, hheard⟩ := h
    have hlookup : retained.lookup id = none := List.lookup_eq_none_iff.mpr fun x hx =>
      bne_iff_ne.mpr fun he => hkept (he ▸ List.mem_map_of_mem hx)
    have hnobody : listeners.filter (·.1 == id) = [] := List.filter_eq_nil_iff.mpr fun x hx he =>
      hheard (beq_iff_eq.mp he ▸ List.mem_map_of_mem hx)
    simp [watch, Reactor.watch, wait, Reactor.wait, settle, Reactor.settle, hflight, hlookup, List.filter_append,
      hnobody]
  | deferrals d =>
    have hput (d : Deferrals W) (entry : Deferral W) : (d.put id entry).entries.lookup id = some entry := by
      unfold Deferrals.put
      rw [List.lookup_append, List.lookup_eq_none_iff.mpr]
      · simp
      · intro x hx
        exact bne_iff_ne.mpr (bne_iff_ne.mp (List.mem_filter.mp hx).2).symm
    simp [watch, Deferrals.watch, wait, Deferrals.wait, settle, Deferrals.settle, hput]

end Completion

namespace Engine

variable {e e' : Engine Int α} {job : JobId} {c : CompositeCall Int α} {plan : PlanId} {token : SubmissionId}
  {t t' : Turn Int α}

/-- A call waits for its submission in a session where nothing stands in its way, and no turn is left but one. -/
structure Waits (e : Engine Int α) (job : JobId) (c : CompositeCall Int α) (plan : PlanId) (token : SubmissionId)
    (t : Turn Int α) : Prop where
  calm : e.Calm
  call : e.call? job = some c
  phase : c.phase = .draining plan token
  turns : ∃ delay, e.turns = [(delay, t)]

def Listens (e : Engine Int α) (job : JobId) (c : CompositeCall Int α) (token : SubmissionId) : Prop :=
  c.signal.isSome = true → e.listeners.any (·.2 == (job, token)) = true

/-- The submission has not ended, and the call will be told when it does. -/
structure Sent (e : Engine Int α) (job : JobId) (c : CompositeCall Int α) (plan : PlanId) (token : SubmissionId)
    (t : Turn Int α) : Prop extends e.Waits job c plan token t where
  hears : ∀ outcome, (e.completion.settle token outcome).1 = [(job, outcome)]
  listens : e.Listens job c token

/-! ## Steps that nothing interferes with -/

theorem Calm.takeFault (h : e.Calm) (which : DeviceCall) : e.pool.device.takeFault which = (none, e.pool.device) :=
  Pool.takeFault_of_not_mem fun r => by simp [h.faults]

theorem scopesClosed_calm (h : e.Calm) {s : Encoded Int} {ds : List (Download Int)} (hs : s.validation = .ok none)
    (hm : s.memory = .ok none) (hd : s.downloads = .ok ds) :
    e.scopesClosed s = e.schedule 1 (.workDone s (.ok ())) := by
  unfold scopesClosed
  rw [hs, hm, hd]
  dsimp only
  rw [h.takeFault]
  dsimp only
  rw [h.held]
  rfl

theorem nextDownload_calm (h : e.Calm) {d : Download Int} {rest : List (Download Int)}
    (hb : ∀ b, e.pool.device.buffers[d.buffer]? = some b → b.destroyed = false) :
    e.nextDownload token (d :: rest) = e.schedule 1 (.mapped token (d :: rest) (.ok ())) := by
  have hmap : e.pool.device.mapBuffer d.buffer = (.ok (), e.pool.device) := by
    unfold Device.mapBuffer
    rw [h.takeFault]
    dsimp only
    split
    · rename_i b heq
      rw [hb b heq]
      rfl
    · rfl
  unfold nextDownload
  dsimp only
  rw [hmap]
  rfl

theorem workDone_calm (h : e.Calm) {s : Encoded Int} {d : Download Int} (hs : s.validation = .ok none)
    (hm : s.memory = .ok none) (hd : s.downloads = .ok [d])
    (hb : ∀ b, e.pool.device.buffers[d.buffer]? = some b → b.destroyed = false) :
    e.workDone s (.ok ()) = e.schedule 1 (.mapped s.token [d] (.ok ())) := by
  unfold workDone
  dsimp only
  rw [if_neg (not_not_intro h.ready), hm, hs]
  dsimp only
  rw [hd]
  exact nextDownload_calm h hb

theorem readMapped_complete [Zero α] [Stored α] (block : Block α) {bytes : Int} {count room : Nat}
    (hb : Measure.toLength? bytes = some (4 * count)) (hr : count ≤ room) :
    ∃ values, readMapped block bytes room = .ok values := by
  unfold readMapped
  rw [hb]
  dsimp only
  rw [if_neg (by omega)]
  exact ⟨_, rfl⟩

section
variable [Channel α] [Stored α]

theorem mapped_calm (h : e.Calm) (token : SubmissionId) {d : Download Int} {count : Nat}
    (hb : Measure.toLength? d.bytes = some (4 * count)) (hroom : count ≤ e.room d.target) :
    ∃ values, e.mapped token [d] (.ok ()) = (e.fill d.target values).schedule 2 (.finished token (.ok ())) := by
  obtain ⟨values, hvalues⟩ := readMapped_complete (e.pool.device.buffers.block d.buffer) hb hroom
  refine ⟨values, ?_⟩
  unfold mapped
  dsimp only
  rw [Device.call, h.takeFault]
  dsimp only [id]
  rw [show (e.setDevice e.pool.device).room d.target = e.room d.target from rfl, hvalues]
  dsimp only
  rw [Device.call, h.takeFault]
  rfl

end

theorem Calm.destroys (h : e.Calm) : e.pool.Destroys := fun r hr => by
  rw [h.faults] at hr
  cases hr

/-- A submission that succeeded ends, and nothing but references is lost. -/
theorem finished_calm (h : e.Calm) (hp : e.pool.Sound) (token : SubmissionId) :
    ∃ pool session, e.pool.Quiet pool ∧ session.phase = e.session.phase ∧
      e.finished token (.ok ()) = ({ e with pool, session } : Engine Int α).schedule 3
      (.reported token (.ok ())) := by
  unfold finished finish
  cases e.session.pending.lookup token with
  | none => exact ⟨e.pool, e.session, .refl hp, rfl, rfl⟩
  | some handles =>
    obtain ⟨hquiet, hok⟩ := Pool.each_relinquish_spec hp handles
    dsimp only [Attempt.lift]
    rw [hok h.destroys]
    exact ⟨_, { e.session with pending := e.session.pending.filter (·.1 != token) }, hquiet, rfl, rfl⟩

theorem reported_hears (h : ∀ outcome, (e.completion.settle token outcome).1 = [(job, outcome)]) :
    ∃ completion, e.reported token (.ok ()) = ({ e with completion } : Engine Int α).schedule
      completion.wakeTurns (.collected job token (.ok ())) := by
  have hwoken := h (.ok ())
  unfold reported wake
  show ∃ completion, List.foldl _ { e with completion := (e.completion.settle token (.ok ())).2 }
    (e.completion.settle token (.ok ())).1 = _
  rw [hwoken]
  exact ⟨_, rfl⟩

theorem collected_call (h : e.call? job = some c) (token : SubmissionId) (outcome : Outcome) :
    e.collected job token outcome = ({ e with completion := e.completion.collect token } : Engine Int α).schedule 2
      (if c.signal.isSome then .drained job token outcome else .resumed job token outcome) := by
  unfold collected pass
  dsimp only
  rw [call?_eq.mp h]

theorem drained_listening (h : e.listeners.any (·.2 == (job, token)) = true) :
    e.drained job token (.ok ()) =
      ({ e with listeners := e.listeners.filter (·.2 != (job, token)) } : Engine Int α).schedule 1
        (.resumed job token (.ok ())) := by
  unfold drained
  dsimp only
  rw [if_pos h]

section
variable [Channel α] [Stored α] [Transfer α] {G : Ledger α}

theorem resumed_calm (hc : e.Calm) (hp : e.pool.Sound) (h : e.call? job = some c)
    (hphase : c.phase = .draining plan token) {base : Layer Int α} (hbase : c.layers.head? = some base) :
    ∃ pool r, e.pool.device.Steady pool.device ∧ e.resumed job token (.ok ()) =
      ({ e with pool }.setCall job { c with held := [], phase := .ended }).schedule 1
      (.attemptEnded job (.ok r)) := by
  obtain ⟨hleads, -, hok⟩ := Pool.releaseLive_spec hp (c.held ++ e.ownedBy plan)
  have hdone := hok hc.destroys
  have hend (r : Raster Int α) : ((e.pool.releaseLive (c.held ++ e.ownedBy plan)).endWith (.ok r)).1 = .ok r := by
    generalize e.pool.releaseLive (c.held ++ e.ownedBy plan) = released at hdone
    obtain ⟨result, pool⟩ := released
    cases hdone
    rfl
  unfold resumed
  rw [h]
  dsimp only
  rw [hphase, hbase]
  dsimp only [Except.map]
  rw [if_pos rfl, leave_eq h, hend]
  exact ⟨_, _, hleads.device, rfl⟩

theorem attemptEnded_answers (h : e.call? job = some c) (hv : c.verifies = false) (r : Raster Int α) :
    ∃ log, e.attemptEnded job (.ok r) = ({ e with log } : Engine Int α).settle job (.ok (.raster r)) := by
  have hanswer (e : Engine Int α) : e.answerOf c r = .ok (.raster r) := by
    unfold answerOf
    rw [hv]
    rfl
  unfold attemptEnded
  rw [h]
  dsimp only
  split
  · rw [hanswer]
    exact ⟨_, rfl⟩
  · rw [hanswer]
    exact ⟨e.log, rfl⟩

/-! ## From the scopes to the answer -/

omit [Transfer α] in
theorem Safe.undestroyed (hs : e.Safe G) (hready : e.session.phase = .ready) (h : e.call? job = some c) {k : Handle}
    (hk : k ∈ c.held) : ∀ b, e.pool.device.buffers[e.pool.arena.bufferOf k]? = some b → b.destroyed = false := by
  obtain ⟨r, hr⟩ := hs.sound.resolve_of_contains ((hs.orderly hready).live job c h k (Change.mem_claims hk))
  obtain ⟨i, hi⟩ := Arena.resolve_eq_ok.mp hr
  obtain ⟨-, occupancy, backing, -, hbacking, rfl⟩ := Arena.locate_eq_ok.mp hi
  rw [Arena.bufferOf_eq hr]
  exact hs.intact hready i backing hbacking

/-- The one turn runs and leaves the next one behind. -/
theorem Waits.next (h : e.Waits job c plan token t) {e₁ : Engine Int α} {delay : Nat}
    (hstep : ({ e with turns := [] } : Engine Int α).perform t = e₁.schedule delay t') (hcalm : e₁.Calm)
    (hjobs : e₁.jobs = e.jobs) (hturns : e₁.turns = []) :
    e.Comes (e₁.schedule delay t') ∧ (e₁.schedule delay t').Waits job c plan token t' := by
  obtain ⟨n, hn⟩ := h.turns
  have hcomes := Comes.single hn
  rw [hstep] at hcomes
  refine ⟨hcomes, { hcalm with }, ?_, h.phase, delay, ?_⟩
  · rw [call?_eq]
    exact hjobs ▸ call?_eq.mp h.call
  · exact congrArg (· ++ [(delay, t')]) hturns

theorem Sent.next (h : e.Sent job c plan token t) {e₁ : Engine Int α} {delay : Nat}
    (hstep : ({ e with turns := [] } : Engine Int α).perform t = e₁.schedule delay t') (hcalm : e₁.Calm)
    (hjobs : e₁.jobs = e.jobs) (hturns : e₁.turns = []) (hcompletion : e₁.completion = e.completion)
    (hlisteners : e₁.listeners = e.listeners) (hsettled : e₁.settled = e.settled) :
    ∃ e', e.Comes e' ∧ e'.Sent job c plan token t' ∧ e'.settled = e.settled := by
  obtain ⟨hcomes, hwaits⟩ := h.toWaits.next hstep hcalm hjobs hturns
  refine ⟨_, hcomes, ⟨hwaits, hcompletion ▸ h.hears, fun hs => ?_⟩, hsettled⟩
  show e₁.listeners.any _ = true
  rw [hlisteners]
  exact h.listens hs

theorem Sent.succeeds (hw : e.Well G) {s : Encoded Int} {d : Download Int}
    (h : e.Sent job c plan token (.scopesClosed s)) (htoken : s.token = token)
    (hvalidation : s.validation = .ok none) (hmemory : s.memory = .ok none) (hdownloads : s.downloads = .ok [d])
    (hplan : d.target = .output plan) :
    ∃ e', e.Comes e' ∧ e'.Sent job c plan token (.reported token (.ok ())) ∧ e'.settled = e.settled := by
  subst htoken
  have hcalm {e : Engine Int α} (hc : e.Calm) : ({ e with turns := [] } : Engine Int α).Calm := { hc with }
  -- the scopes have captured nothing
  obtain ⟨e₁, hcomes₁, h₁, hs₁⟩ := h.next (scopesClosed_calm (hcalm h.calm) hvalidation hmemory hdownloads)
    (hcalm h.calm) rfl rfl rfl rfl rfl
  have hw₁ := hw.comes hcomes₁
  obtain ⟨delay, ht⟩ := h₁.turns
  have hpromise : e₁.Promises G s.token [d] := by
    have hnote := hw₁.holds (.promises s.token (s.downloads.toOption.getD []))
      (mem_notes.mpr (.inl ⟨_, ht ▸ List.mem_singleton_self _, List.mem_singleton_self _⟩))
    rwa [hdownloads] at hnote
  obtain ⟨o, ho, -, -⟩ := hw₁.safe.known job c h₁.call
  have hshown := (hpromise.shows d (List.mem_singleton_self _) plan hplan).2 job c o s.token h₁.call ho h₁.phase
  obtain ⟨k, hk, hbuffer⟩ := hshown.slot h₁.calm.ready
  have hundestroyed := hw₁.safe.undestroyed h₁.calm.ready h₁.call (List.mem_of_getLast? hk)
  rw [hbuffer] at hundestroyed
  -- the queue is done, and the download is mapped
  obtain ⟨e₂, hcomes₂, h₂, hs₂⟩ := h₁.next
    (workDone_calm (hcalm h₁.calm) hvalidation hmemory hdownloads hundestroyed) (hcalm h₁.calm) rfl rfl rfl rfl rfl
  have hw₂ := hw₁.comes hcomes₂
  obtain ⟨-, -, -, rec, hrec, hlength⟩ := hw₂.safe.drains job c o plan s.token h₂.call ho h₂.phase
  obtain ⟨hwidth, hheight⟩ := ((hw₂.safe.asked job o ho).2.valid o.base (List.mem_cons_self ..)).positive
  have hbytes : Measure.toLength? d.bytes = some (4 * (4 * o.count)) := by
    rw [hshown.bytes]
    exact Stack.Carries.toLength_workingBytes (Int.le_of_lt hwidth) (Int.le_of_lt hheight)
  -- it is read
  obtain ⟨values, hmapped⟩ := mapped_calm (e := { e₂ with turns := [] }) (hcalm h₂.calm) s.token hbytes (by
    rw [hplan, room_output { e₂ with turns := [] } hrec, hlength])
  obtain ⟨e₃, hcomes₃, h₃, hs₃⟩ := h₂.next hmapped { h₂.calm with } rfl rfl rfl rfl rfl
  have hw₃ := hw₂.comes hcomes₃
  -- its references are dropped
  obtain ⟨pool, session, hquiet, hphase, hfinished⟩ := finished_calm (e := { e₃ with turns := [] }) (hcalm h₃.calm)
    hw₃.safe.sound s.token
  obtain ⟨e₄, hcomes₄, h₄, hs₄⟩ := h₃.next hfinished (h₃.calm.steady hphase rfl hquiet.device) rfl rfl rfl rfl rfl
  exact ⟨e₄, ((hcomes₁.trans hcomes₂).trans hcomes₃).trans hcomes₄, h₄,
    ((hs₄.trans hs₃).trans hs₂).trans hs₁⟩

/-- A call that is told of its submission goes on, once it has stopped to listen. -/
theorem Waits.told (h : e.Waits job c plan token (.collected job token (.ok ()))) (hl : e.Listens job c token) :
    ∃ e', e.Comes e' ∧ e'.Waits job c plan token (.resumed job token (.ok ())) ∧ e'.settled = e.settled := by
  have hcollected := collected_call (e := { e with turns := [] }) h.call token (.ok ())
  by_cases hs : c.signal.isSome = true
  · rw [if_pos hs] at hcollected
    obtain ⟨hcomes₁, h₁⟩ := h.next hcollected { h.calm with } rfl rfl
    have hdrained := drained_listening (e := { e with turns := [], completion := e.completion.collect token })
        (hl hs)
    obtain ⟨hcomes₂, h₂⟩ := h₁.next hdrained { h.calm with } rfl rfl
    exact ⟨_, hcomes₁.trans hcomes₂, h₂, rfl⟩
  · rw [if_neg hs] at hcollected
    obtain ⟨hcomes₁, h₁⟩ := h.next hcollected { h.calm with } rfl rfl
    exact ⟨_, hcomes₁, h₁, rfl⟩

/-- A call that goes on after its submission has succeeded answers with a raster. -/
theorem Waits.answers (hw : e.Well G) (h : e.Waits job c plan token (.resumed job token (.ok ())))
    (hv : c.verifies = false) :
    ∃ e' r, e.Comes e' ∧ e'.turns = [] ∧ e'.settled = e.settled ++ [(job, .ok (.raster r))] := by
  obtain ⟨o, -, hlayers, -⟩ := hw.safe.known job c h.call
  have hbase : c.layers.head? = some o.base := by
    rw [hlayers]
    rfl
  obtain ⟨delay, ht⟩ := h.turns
  have hcomes₁ := Comes.single ht
  obtain ⟨pool, r, -, hresumed⟩ := resumed_calm (e := { e with turns := [] }) { h.calm with } hw.safe.sound h.call
    h.phase hbase
  rw [show ({ e with turns := [] } : Engine Int α).perform (.resumed job token (.ok ())) =
    _ from hresumed] at hcomes₁
  have hcomes₂ := Comes.single (show (({ e with turns := [], pool } : Engine Int α).setCall job
    { c with held := [], phase := .ended } |>.schedule 1 (.attemptEnded job (.ok r))).turns = [(1, _)] from rfl)
  have hcall := call?_setCall_self (e := ({ e with turns := [], pool } : Engine Int α)) (lt_of_call? h.call)
    { c with held := [], phase := .ended }
  obtain ⟨log, hended⟩ := attemptEnded_answers hcall hv r
  exact ⟨_, r, hcomes₁.trans hcomes₂, congrArg Engine.turns hended, congrArg Engine.settled hended⟩

theorem Sent.answers (hw : e.Well G) {s : Encoded Int} {d : Download Int}
    (h : e.Sent job c plan token (.scopesClosed s)) (htoken : s.token = token)
    (hvalidation : s.validation = .ok none) (hmemory : s.memory = .ok none) (hdownloads : s.downloads = .ok [d])
    (hplan : d.target = .output plan) (hv : c.verifies = false) :
    ∃ e' r, e.Comes e' ∧ e'.turns = [] ∧ e'.settled = e.settled ++ [(job, .ok (.raster r))] := by
  obtain ⟨e₁, hcomes₁, h₁, hs₁⟩ := h.succeeds hw htoken hvalidation hmemory hdownloads hplan
  obtain ⟨completion, hreported⟩ := reported_hears (e := { e₁ with turns := [] }) h₁.hears
  obtain ⟨hcomes₂, h₂⟩ := h₁.toWaits.next hreported { h₁.calm with } rfl rfl
  obtain ⟨e₃, hcomes₃, h₃, hs₃⟩ := h₂.told h₁.listens
  have hcomes := (hcomes₁.trans hcomes₂).trans hcomes₃
  obtain ⟨e₄, r, hcomes₄, hturns, hs₄⟩ := h₃.answers (hw.comes hcomes) hv
  refine ⟨e₄, r, hcomes.trans hcomes₄, hturns, ?_⟩
  rw [hs₄, hs₃]
  exact congrArg (· ++ _) hs₁

end

end Engine

end Strata
