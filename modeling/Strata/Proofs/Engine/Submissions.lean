import Strata.Proofs.Engine.Arrays
import Strata.Proofs.Engine.Attempts
import Strata.Proofs.Engine.Submitting
import Strata.Proofs.Engine.Waiting

/-!
# Submissions keep every promise

A submission writes only buffers of the slots of its own call, and promises its download
(`Commits.proceeds`). Reading the download fills the output of the plan with what the order asks for
(`mapped_proceeds`).
-/

namespace Strata

variable {α : Type} {G : Ledger α} [Channel α] {e e' : Engine Int α}

theorem Stack.Sane.fitsWord {o : Order α} (h : Stack.Sane o.layers) :
    DispatchParams.FitsWord o.width ∧ DispatchParams.FitsWord o.height :=
  (h.valid o.base (List.mem_cons_self ..)).fitsWord (h.arrays o.base (List.mem_cons_self ..))

namespace Engine

variable [Stored α] [Transfer α]

/-! ## Running a plan -/

/-- What a call is shown by the one download of its plan. -/
theorem shown_of_run {o : Order α} {held : List Handle} {plan : PlanId} {rec : PlanRecord Int α}
    (hs : Stack.Sane o.layers) {destination last : Handle} {parts : List (Stack.Part α)}
    (hcarries : Stack.Carries o.width o.height o.layers held destination parts last rec.plan) {pool : Pool Int α}
    (hp : pool.Sound) (hl : ∀ k, k ∈ held ∨ k ∈ rec.plan.owned → pool.arena.contains k = true)
    {device device' : Device Int α} (hd : device.buffers = pool.device.buffers)
    {ds : List (Download Int)} (hrun : Encoder.run pool.arena plan device rec.plan.stages = (.ok ds, device'))
    (hpool : e.pool.arena = pool.arena) (hb : e.pool.device.buffers = device'.buffers) :
    ∃ d, ds = [d] ∧ d.target = .output plan ∧ e.Shown held o d := by
  obtain ⟨hw, hh⟩ := hs.fitsWord
  obtain ⟨rfl, hshows⟩ := hcarries.run_shows hp hl hs.valid hw hh hd hrun
  refine ⟨_, rfl, rfl, rfl, ?_, ?_, fun _ => ⟨destination, ?_, by rw [hpool]⟩⟩
  · obtain ⟨r, hr⟩ := hp.resolve_of_contains (hl _ (.inl hcarries.destination_mem))
    have hwrites := (@Encoder.run_writes _ _ pool.arena plan _ _ _ _ device rec.plan.stages).2
    rw [hrun] at hwrites
    rw [hb]
    refine hwrites.lt_size.mpr ?_
    rw [hd, Arena.bufferOf_eq hr]
    exact (hp.size_le hr).1
  · rw [hb]
    exact hshows
  · rw [hcarries.slots]
    exact List.getLast?_concat

omit [Channel α] [Stored α] [Transfer α] in
theorem claims_of_plan {c : CompositeCall Int α} {plan : PlanId} (hp : c.phase.plan? = some plan)
    {rec : PlanRecord Int α} (hrec : e.plans[plan]? = some rec) : e.claims c = c.held ++ rec.plan.owned := by
  unfold claims ownedBy
  rw [hp, Option.toList_some, List.flatMap_singleton, hrec]
  rfl

/-- A call is about to submit its plan, and the session accepts it. -/
structure Commits (G : Ledger α) (e : Engine Int α) (j : JobId) (c : CompositeCall Int α) (plan : PlanId)
    (rec : PlanRecord Int α) (pool : Pool Int α) (device : Device Int α) : Prop where
  safe : e.Safe G
  call : e.call? j = some c
  phase : c.phase = .planned (.ok plan)
  accepts : e.Accepts plan rec pool device

def committed (e : Engine Int α) (j : JobId) (c : CompositeCall Int α) (plan : PlanId) (rec : PlanRecord Int α)
    (pool : Pool Int α) (device : Device Int α) : Engine Int α :=
  (e.submitting plan rec pool device).setCall j { c with phase := .draining plan e.token }

namespace Commits

variable {j : JobId} {c : CompositeCall Int α} {plan : PlanId} {rec : PlanRecord Int α} {pool : Pool Int α}
  {device : Device Int α}

section

omit [Transfer α]

/-! ### What is known of the call -/

theorem quiet (h : e.Commits G j c plan rec pool device) : e.pool.Quiet pool := by
  have hq := acquireAll_quiet h.safe.sound [] (rec.plan.stages.flatMap Stage.handles)
  rwa [h.accepts.acquired] at hq

theorem has_plan (h : e.Commits G j c plan rec pool device) : c.phase.plan? = some plan := by
  rw [h.phase]
  rfl

theorem orderly (h : e.Commits G j c plan rec pool device) : e.Orderly G := h.safe.orderly h.accepts.ready

theorem claims (h : e.Commits G j c plan rec pool device) : e.claims c = c.held ++ rec.plan.owned :=
  claims_of_plan h.has_plan h.accepts.record

/-- The plan carries out what the call was asked for. -/
theorem carries (h : e.Commits G j c plan rec pool device) {o : Order α} (ho : G j = some o) :
    ∃ destination parts last, Stack.Carries o.width o.height o.layers c.held destination parts last rec.plan := by
  obtain ⟨rec', destination, parts, last, hrec, hcarries⟩ :=
      (h.orderly.staged j c o h.call ho).carried plan h.has_plan
  rw [h.accepts.record] at hrec
  cases hrec
  exact ⟨destination, parts, last, hcarries⟩

theorem live (h : e.Commits G j c plan rec pool device) (k : Handle) (hk : k ∈ c.held ∨ k ∈ rec.plan.owned) :
    pool.arena.contains k = true := by
  rw [h.quiet.contains]
  refine h.orderly.live j c h.call k ?_
  rw [h.claims]
  exact List.mem_append.mpr hk

theorem opened (h : e.Commits G j c plan rec pool device) : device.buffers = pool.device.buffers := by
  have hbuffers := (Device.Idles.pushScopes pool.device).buffers
  rwa [h.accepts.opened] at hbuffers

end

/-! ### What has changed -/

theorem buffers_committed : (e.committed j c plan rec pool device).pool.device.buffers =
    (Encoder.run pool.arena plan device rec.plan.stages).2.buffers :=
  (Device.Idles.popScope _).buffers.trans (Device.Idles.popScope _).buffers

theorem writes (h : e.Commits G j c plan rec pool device) : pool.device.buffers.Writes
    (e.committed j c plan rec pool device).pool.device.buffers (Encoder.touched pool.arena rec.plan.stages) := by
  have hwrites := (@Encoder.run_writes _ _ pool.arena plan _ _ _ _ device rec.plan.stages).2
  rwa [← buffers_committed (e := e) (j := j) (c := c), h.opened] at hwrites

theorem call?_committed (h : e.Commits G j c plan rec pool device) (i : JobId) :
    (e.committed j c plan rec pool device).call? i =
      if i = j then some { c with phase := .draining plan e.token } else e.call? i := by
  have hlt : j < (e.submitting plan rec pool device).jobs.size := lt_of_call? h.call
  have hcall := call?_setCall (e.submitting plan rec pool device) j { c with phase := .draining plan e.token } i
  simp only [and_iff_left hlt] at hcall
  exact hcall

theorem old {token : SubmissionId} (ht : e.Old token) : (e.committed j c plan rec pool device).Old token := by
  obtain ⟨n, hlt, rfl⟩ := ht
  exact ⟨n, Nat.lt_succ_of_lt hlt, rfl⟩

theorem token_old : (e.committed j c plan rec pool device).Old e.token := ⟨_, Nat.lt_succ_self _, rfl⟩

omit [Channel α] [Stored α] [Transfer α] in
theorem token_not_old : ¬ e.Old e.token := by
  rintro ⟨n, hlt, h⟩
  exact Nat.lt_irrefl _ (Ident.number.inj h ▸ hlt)

/-- Every call was there before, with the same slots and the same plan. -/
theorem had (h : e.Commits G j c plan rec pool device) {i : JobId} {d' : CompositeCall Int α}
    (hd : (e.committed j c plan rec pool device).call? i = some d') :
    ∃ d, e.call? i = some d ∧ (e.committed j c plan rec pool device).claims d' = e.claims d := by
  rw [h.call?_committed] at hd
  by_cases hij : i = j
  · rw [if_pos hij] at hd
    cases hd
    refine ⟨c, hij ▸ h.call, ?_⟩
    show c.held ++ (some plan).toList.flatMap e.ownedBy = c.held ++ c.phase.plan?.toList.flatMap e.ownedBy
    rw [h.has_plan]
  · rw [if_neg hij] at hd
    exact ⟨d', hd, rfl⟩

theorem own (h : e.Commits G j c plan rec pool device) {i : JobId} {d : CompositeCall Int α}
    {o : Order α} {p : PlanId} {token : SubmissionId} (hd : (e.committed j c plan rec pool device).call? i = some d)
    (ho : G i = some o) (hp : d.phase = .draining p token) (he : token = e.token ∨ p = plan) :
    i = j ∧ d.held = c.held ∧ token = e.token ∧ p = plan := by
  rw [h.call?_committed] at hd
  by_cases hij : i = j
  · rw [if_pos hij] at hd
    cases hd
    cases hp
    exact ⟨hij, rfl, rfl, rfl⟩
  · rw [if_neg hij] at hd
    obtain ⟨hold, hconsumed, -⟩ := h.safe.drains i d o p token hd ho hp
    rcases he with rfl | rfl
    · exact absurd hold token_not_old
    · exact absurd hconsumed h.accepts.fresh

theorem other (h : e.Commits G j c plan rec pool device) {i : JobId} {d : CompositeCall Int α} {p : PlanId}
    {token : SubmissionId} (hd : (e.committed j c plan rec pool device).call? i = some d)
    (hp : d.phase = .draining p token) (hne : token ≠ e.token ∨ p ≠ plan) : i ≠ j ∧ e.call? i = some d := by
  rw [h.call?_committed] at hd
  by_cases hij : i = j
  · rw [if_pos hij] at hd
    cases hd
    cases hp
    exact absurd rfl (hne.resolve_left (absurd rfl))
  · rw [if_neg hij] at hd
    exact ⟨hij, hd⟩

theorem shown (h : e.Commits G j c plan rec pool device) {i : JobId} {f : CompositeCall Int α} {o : Order α}
    {x : Download Int} (hij : i ≠ j) (hf : e.call? i = some f) (hx : e.Shown f.held o x) :
    (e.committed j c plan rec pool device).Shown f.held o x := by
  obtain ⟨k, hk, hbuf⟩ := hx.slot h.accepts.ready
  have hmem : k ∈ e.claims f := Change.mem_claims (List.mem_of_getLast? hk)
  have hlive := h.orderly.live i f hf k hmem
  obtain ⟨r, hr⟩ := h.safe.sound.resolve_of_contains hlive
  have hlive' : pool.arena.contains k = true := h.quiet.contains ▸ hlive
  have hbuf' : pool.arena.bufferOf k = x.buffer := by
    rw [Arena.bufferOf_eq (Arena.resolve_later h.quiet.later hr hlive'), ← hbuf, Arena.bufferOf_eq hr]
  have hout : k ∉ c.held ∧ k ∉ rec.plan.owned := by
    have hne := h.orderly.apart i j f c hij hf h.call k hmem
    rwa [h.claims, List.mem_append, not_or] at hne
  obtain ⟨o', ho', -⟩ := h.safe.known j c h.call
  obtain ⟨destination, parts, last, hcarries⟩ := h.carries ho'
  have hframe := @Stack.Carries.run_frame _ _ _ _ _ _ _ _ _ _ _ _ _ plan hcarries h.quiet.sound h.live
    device _ hlive' hout
  rw [hbuf', h.opened, ← buffers_committed (e := e) (j := j) (c := c), h.quiet.blocks.2 _ hx.buffer] at hframe
  refine ⟨hx.bytes, ?_, ?_, fun _ => ⟨k, hk, hbuf'⟩⟩
  · exact h.writes.lt_size.mpr (Nat.lt_of_lt_of_le hx.buffer h.quiet.blocks.1)
  · rw [hframe]
    exact hx.image

/-! ### What is kept -/

theorem committed_orderly (h : e.Commits G j c plan rec pool device) :
    (e.committed j c plan rec pool device).Orderly G where
  live i d' hd k hk := by
    obtain ⟨d, hd, hclaims⟩ := h.had hd
    rw [hclaims] at hk
    show pool.arena.contains k = true
    rw [h.quiet.contains]
    exact h.orderly.live i d hd k hk
  apart i i' d' f' hne hd hf k hk hk' := by
    obtain ⟨d, hd, hclaims⟩ := h.had hd
    obtain ⟨f, hf, hclaims'⟩ := h.had hf
    rw [hclaims] at hk
    rw [hclaims'] at hk'
    exact h.orderly.apart i i' d f hne hd hf k hk hk'
  staged i d o hd ho := by
    have hplans (p : Nat) (rec' : PlanRecord Int α) (hrec : e.plans[p]? = some rec') :
        (e.committed j c plan rec pool device).plans[p]? = some rec' := hrec
    rw [h.call?_committed] at hd
    by_cases hij : i = j
    · rw [if_pos hij] at hd
      cases hd
      refine ⟨fun p hp => (by cases hp), fun p hp => ?_⟩
      cases hp
      exact Change.carried hplans ((h.orderly.staged j c o h.call (hij ▸ ho)).carried plan h.has_plan)
    · rw [if_neg hij] at hd
      refine Change.staged h.quiet.later hplans (fun k hk => ?_) (h.orderly.staged i d o hd ho)
      show pool.arena.contains k = true
      rw [h.quiet.contains]
      exact h.orderly.live i d hd k hk

theorem committed_drains (h : e.Commits G j c plan rec pool device) {i : JobId}
    {d : CompositeCall Int α} {o : Order α} {p : PlanId} {token : SubmissionId}
    (hd : (e.committed j c plan rec pool device).call? i = some d) (ho : G i = some o)
    (hp : d.phase = .draining p token) :
    (e.committed j c plan rec pool device).Old token ∧ p ∈ plan :: e.session.consumed ∧ o.Fits ∧
      ∃ rec, e.plans[p]? = some rec ∧ rec.plan.outputLength = 4 * o.count := by
  by_cases he : token = e.token ∨ p = plan
  · obtain ⟨rfl, -, rfl, rfl⟩ := h.own hd ho hp he
    obtain ⟨destination, parts, last, hcarries⟩ := h.carries ho
    obtain ⟨hw, hh⟩ := ((h.safe.asked i o ho).2.valid o.base (List.mem_cons_self ..)).positive
    refine ⟨token_old, List.mem_cons_self .., hcarries.fit, rec, h.accepts.record, ?_⟩
    rw [hcarries.drawn.outputLength]
    exact dataLength_eq (Int.le_of_lt hw) (Int.le_of_lt hh)
  · obtain ⟨-, hd⟩ := h.other hd hp (.inl (not_or.mp he).1)
    obtain ⟨hold, hconsumed, hrest⟩ := h.safe.drains i d o p token hd ho hp
    exact ⟨old hold, List.mem_cons_of_mem _ hconsumed, hrest⟩

theorem committed_safe (h : e.Commits G j c plan rec pool device) :
    (e.committed j c plan rec pool device).Safe G where
  sound := h.quiet.sound.resize (Nat.not_lt.mp fun hlt => Nat.lt_irrefl _ (h.writes.lt_size.mpr hlt)) fun _ _ =>
    h.writes.size_block _
  intact _ := (h.quiet.intact (h.safe.intact h.accepts.ready)).reshape h.writes.shape
  right := h.safe.right
  lone i p hi := by
    change (e.jobs.setIfInBounds j _)[i]? = _ at hi
    rw [Array.getElem?_setIfInBounds] at hi
    split at hi
    · split at hi <;> cases hi
    · exact h.safe.lone i p hi
  known i d hd := by
    rw [h.call?_committed] at hd
    by_cases hij : i = j
    · rw [if_pos hij] at hd
      cases hd
      exact hij ▸ h.safe.known j c h.call
    · rw [if_neg hij] at hd
      exact h.safe.known i d hd
  asked i o ho := by
    refine ⟨?_, (h.safe.asked i o ho).2⟩
    show i < (e.jobs.setIfInBounds j _).size
    rw [Array.size_setIfInBounds]
    exact (h.safe.asked i o ho).1
  filled := h.safe.filled
  spent := by
    obtain ⟨hlt, -⟩ := Array.getElem?_eq_some_iff.mp h.accepts.record
    exact List.forall_mem_cons.mpr ⟨hlt, h.safe.spent⟩
  watched id hid := by
    rcases e.completion.ids_watch hid with hid | rfl
    · exact old (h.safe.watched id hid)
    · exact token_old
  drains _ _ _ _ _ hd ho hp := h.committed_drains hd ho hp
  orderly _ := h.committed_orderly

theorem committed_keeps (h : e.Commits G j c plan rec pool device) {n : Note α} (hn : e.Holds G n) :
    (e.committed j c plan rec pool device).Holds G n := by
  cases n with
  | arrives | yields | builds | built => exact hn
  | gathered job ps => exact fun _ => hn h.accepts.ready
  | promises token ds =>
    have hn : e.Promises G token ds := hn
    refine ⟨old hn.old, fun i d o p hd ho hp => ?_, fun x hx => ?_⟩
    · obtain ⟨-, hd⟩ := h.other hd hp (.inl fun he => token_not_old (he ▸ hn.old))
      exact hn.covers i d o p hd ho hp
    · intro p' hplan
      obtain ⟨hconsumed, hall⟩ := hn.shows x hx p' hplan
      refine ⟨List.mem_cons_of_mem _ hconsumed, fun i d o token' hd ho hp => ?_⟩
      obtain ⟨hij, hd⟩ := h.other hd hp (.inr fun he => h.accepts.fresh (he ▸ hconsumed))
      exact h.shown hij hd (hall i d o token' hd ho hp)

/-- What was encoded promises the download of the plan. -/
theorem committed_promises (h : e.Commits G j c plan rec pool device) {n : Note α}
    (hn : n ∈ (Turn.scopesClosed (α := α) (ran e.token plan pool.arena device rec.plan.stages).1).notes) :
    (e.committed j c plan rec pool device).Holds G n := by
  cases hrun : Encoder.run pool.arena plan device rec.plan.stages with
  | mk r device' =>
    unfold Turn.notes ran at hn
    rw [hrun] at hn
    cases r with
    | error failure => exact absurd hn List.not_mem_nil
    | ok ds =>
      obtain ⟨o, ho, -⟩ := h.safe.known j c h.call
      obtain ⟨destination, parts, last, hcarries⟩ := h.carries ho
      obtain ⟨x, rfl, hplan, hx⟩ := shown_of_run (e := e.committed j c plan rec pool device) (h.safe.asked j o ho).2
        hcarries h.quiet.sound h.live h.opened hrun rfl (by rw [buffers_committed, hrun])
      rw [List.mem_singleton.mp hn]
      refine ⟨token_old, fun i d o' p hd ho' hp => .inr ⟨x, List.mem_singleton_self _, ?_⟩, fun y hy p hp => ?_⟩
      · obtain ⟨-, -, -, rfl⟩ := h.own hd ho' hp (.inl rfl)
        exact hplan
      · rw [List.mem_singleton.mp hy] at hp ⊢
        cases hplan.symm.trans hp
        refine ⟨List.mem_cons_self .., fun i d o' token' hd ho' hp => ?_⟩
        obtain ⟨rfl, hheld, -⟩ := h.own hd ho' hp (.inr rfl)
        cases ho.symm.trans ho'
        rw [hheld]
        exact hx

theorem committed_notes {n : Note α} (hn : n ∈ (e.committed j c plan rec pool device).notes) : n ∈ e.notes ∨
    n ∈ (Turn.scopesClosed (α := α) (ran e.token plan pool.arena device rec.plan.stages).1).notes := by
  rcases mem_notes.mp hn with ⟨t, ht, hn⟩ | hn | hn | ⟨x, hx, hn⟩ | hn
  · rcases List.mem_append.mp ht with ht | ht
    · exact .inl (mem_notes.mpr (.inl ⟨t, ht, hn⟩))
    · rw [List.mem_singleton.mp ht] at hn
      exact .inr hn
  · exact .inl (mem_notes.mpr (.inr (.inl hn)))
  · exact .inl (mem_notes.mpr (.inr (.inr (.inl hn))))
  · exact .inl (mem_notes.mpr (.inr (.inr (.inr (.inl ⟨x, e.completion.outcomes_watch _ hx, hn⟩)))))
  · exact .inl (mem_notes.mpr (.inr (.inr (.inr (.inr hn)))))

/-- A plan runs, and its call waits for it. -/
theorem proceeds (h : e.Commits G j c plan rec pool device) : e.Proceeds G (e.committed j c plan rec pool device) :=
  ⟨h.committed_safe, fun _ => h.accepts.ready, fun _ hn => h.committed_keeps hn,
    fun _ hn => (committed_notes hn).imp_right h.committed_promises⟩

end Commits

/-! ## Submitting -/

theorem submit_error (hs : e.Safe G) {plan : PlanId} {failure : Failure}
    (h : e.submit plan = (.error failure, e')) : e.Proceeds G e' ∧ e'.jobs = e.jobs ∧ e'.plans = e.plans := by
  unfold submit at h
  split at h
  · cases h
    exact ⟨.refl hs, rfl, rfl⟩
  · cases h
    exact ⟨.refl hs, rfl, rfl⟩
  · rename_i rec _ hrec
    obtain ⟨hlt, -⟩ := Array.getElem?_eq_some_iff.mp hrec
    split at h
    · cases h
      exact ⟨.refl hs, rfl, rfl⟩
    · dsimp only at h
      have hq := acquireAll_quiet hs.sound [] (rec.plan.stages.flatMap Stage.handles)
      generalize acquireAll e.pool [] (rec.plan.stages.flatMap Stage.handles) = r at hq h
      obtain ⟨r, pool⟩ := r
      have hkeep : ∀ k, e.pool.arena.contains k = true → pool.arena.contains k = true := fun k hk =>
          hq.contains ▸ hk
      cases r with
      | error failure =>
        cases h
        exact ⟨setPool_proceeds hs hq.toLeads hkeep, rfl, rfl⟩
      | ok u =>
        cases u
        unfold execute at h
        dsimp only at h
        have hpush := (Device.Idles.pushScopes pool.device).buffers
        generalize pushScopes pool.device = r at hpush h
        obtain ⟨r, device⟩ := r
        cases r with
        | error raised =>
          cases h
          -- references were taken and the plan counts as submitted when the scopes fail to open
          refine ⟨Change.proceeds hs (.parts hs { pool with device } e.cache (hq.sound.setDevice hpush) ?_ hq.later
            (fun _ => ⟨fun h => (hq.intact h).setDevice hpush, hkeep⟩) hs.right (.refl _) rfl rfl rfl rfl
              (Nat.le_succ _)
            (.inr ⟨plan, hlt, rfl⟩) id (List.Subset.refl _))
            fun n hn => .inl hn, rfl, rfl⟩
          dsimp only
          rw [hpush]
          exact hq.blocks
        | ok u =>
          cases u
          cases h

omit [Transfer α] in
theorem free_owned (hs : e.Safe G) {j : JobId} {c : CompositeCall Int α} (hc : e.call? j = some c) {plan : PlanId}
    (hp : c.phase.plan? = some plan) : e.Free j (e.ownedBy plan) := by
  intro hready i d hij hd k hk hmem
  apply (hs.orderly hready).apart i j d c hij hd hc k hk
  unfold claims
  rw [hp]
  exact List.mem_append_right _ (List.mem_flatMap.mpr ⟨plan, List.mem_singleton_self _, hmem⟩)

theorem planned_proceeds (hs : e.Safe G) (hn : ∀ n ∈ e.notes, e.Holds G n) (j : JobId) :
    e.Proceeds G (e.planned j) := by
  unfold planned
  split
  · rename_i c hc
    split
    · exact leave_proceeds hs hc (fun _ _ _ _ _ _ _ => List.not_mem_nil) fun r o _ h => by cases h
    · rename_i plan hphase
      have hplan? : c.phase.plan? = some plan := by
        rw [hphase]
        rfl
      have hleave {e' : Engine Int α} (h : e.Proceeds G e') (hjobs : e'.jobs = e.jobs) (failure : Failure) :
          e.Proceeds G (e'.leave j (e'.ownedBy plan) (.error failure)) := by
        have hc' : e'.call? j = some c := by
          unfold call? at hc ⊢
          rw [hjobs]
          exact hc
        exact h.trans (leave_proceeds h.safe hc' (free_owned h.safe hc' hplan?) fun r o _ h => by cases h)
      split
      · exact hleave (.refl hs) rfl _
      · split
        · rename_i failure e' hsubmit
          obtain ⟨hproceeds, hjobs, -⟩ := submit_error hs hsubmit
          exact hleave hproceeds hjobs failure
        · rename_i token e' hsubmit
          obtain ⟨rec, pool, device, haccepts, rfl, rfl⟩ := submit_ok hsubmit
          have hset := Commits.proceeds ⟨hs, hc, hphase, haccepts⟩
          have hwait {e' : Engine Int α} (h : e.Proceeds G e') : e.Proceeds G (e'.waitFor j e.token) := by
            refine h.trans (waitFor_proceeds h.safe (fun n hm => ?_) j e.token)
            rcases h.notes n hm with hm | hm
            · exact h.keeps n (hn n hm)
            · exact hm
          dsimp only
          split
          · exact hwait (hset.trans (.same hset.safe rfl rfl rfl rfl rfl rfl rfl rfl fun n h => .inl h))
          · exact hwait hset
    · exact .refl hs
  · exact .refl hs

/-! ## The way to the outcome -/

theorem reject_proceeds (hs : e.Safe G) (token : SubmissionId) (failure : Failure) :
    e.Proceeds G (e.reject token failure) := schedule_proceeds hs 1 fun _ h => absurd h List.not_mem_nil

theorem scopesClosed_proceeds (hs : e.Safe G) {s : Encoded Int}
    (hn : ∀ n ∈ (Turn.scopesClosed (α := α) s).notes, e.Holds G n) : e.Proceeds G (e.scopesClosed s) := by
  have hend (failure : Failure) : e.Proceeds G (e.schedule 1 (.finished s.token (.error failure))) :=
    schedule_proceeds hs 1 fun _ h => absurd h List.not_mem_nil
  unfold scopesClosed
  split
  · exact hend _
  · exact hend _
  · exact hend _
  · exact reject_proceeds hs _ _
  · exact reject_proceeds hs _ _
  · rename_i ds _ _ hds
    have hnote : ∀ n ∈ s.notes, e.Holds G n := by
      intro n hm
      apply hn n
      unfold Turn.notes
      dsimp only
      rw [hds]
      unfold Encoded.notes at hm
      rw [hds] at hm
      exact hm
    obtain ⟨-, hb⟩ := e.pool.device.takeFault_steady .workDone
    generalize e.pool.device.takeFault .workDone = r at hb
    obtain ⟨fault, device⟩ := r
    have hset := setDevice_proceeds hs hb
    cases fault with
    | some raised => exact hset.trans (schedule_proceeds hset.safe 1 fun _ h => absurd h List.not_mem_nil)
    | none =>
      dsimp only
      split
      · refine hset.trans (.same hset.safe rfl rfl rfl rfl rfl rfl rfl rfl fun n hm => ?_)
        rcases mem_notes.mp hm with hm | ⟨t, ht, hm⟩ | hm
        · exact .inl (mem_notes.mpr (.inl hm))
        · rcases List.mem_append.mp ht with ht | ht
          · exact .inl (mem_notes.mpr (.inr (.inl ⟨t, ht, hm⟩)))
          · rw [List.mem_singleton.mp ht] at hm
            exact .inr (hset.keeps n (hnote n hm))
        · exact .inl (mem_notes.mpr (.inr (.inr hm)))
      · exact hset.trans (schedule_proceeds hset.safe 1 fun n hm => hset.keeps n (hnote n hm))

theorem nextDownload_proceeds (hs : e.Safe G) {token : SubmissionId} {ds : List (Download Int)}
    (hn : e.Promises G token ds) : e.Proceeds G (e.nextDownload token ds) := by
  unfold nextDownload
  cases ds with
  | nil =>
    refine schedule_proceeds hs 2 fun n h => ?_
    rw [List.mem_singleton.mp h]
    exact hn
  | cons d rest =>
    dsimp only
    have hb : (e.pool.device.mapBuffer d.buffer).2.buffers = e.pool.device.buffers := by
      obtain ⟨-, hb⟩ := e.pool.device.takeFault_steady .mapBuffer
      unfold Device.mapBuffer
      split
      · rename_i heq
        rw [heq] at hb
        exact hb
      · rename_i heq
        obtain rfl := Device.takeFault_none heq
        split
        · split <;> rfl
        · rfl
    have hset := setDevice_proceeds hs hb
    refine hset.trans (schedule_proceeds hset.safe 1 fun n h => ?_)
    cases hr : (e.pool.device.mapBuffer d.buffer).1 with
    | error raised =>
      rw [hr] at h
      exact absurd h List.not_mem_nil
    | ok u =>
      rw [hr] at h
      rw [List.mem_singleton.mp h]
      exact hset.keeps (.promises token (d :: rest)) hn

theorem workDone_proceeds (hs : e.Safe G) {s : Encoded Int} {outcome : Outcome}
    (hn : ∀ n ∈ (Turn.workDone (α := α) s outcome).notes, e.Holds G n) : e.Proceeds G (e.workDone s outcome) := by
  unfold workDone
  cases outcome with
  | error failure => exact reject_proceeds hs _ _
  | ok u =>
    cases u
    dsimp only
    split
    · exact reject_proceeds hs _ _
    · split
      · exact reject_proceeds hs _ _
      · exact reject_proceeds hs _ _
      · exact nextDownload_proceeds hs (hn _ (List.mem_singleton_self _))

/-! ## Reading a download -/

/-- What is read from a download that shows an image is what the order asks for. -/
theorem values_of_shown {held : List Handle} {o : Order α} {d : Download Int} (h : e.Shown held o d)
    (hs : Stack.Sane o.layers) {room : Nat} {values : Array α}
    (hv : readMapped (e.pool.device.buffers.block d.buffer) d.bytes room = .ok values) : values = o.channels := by
  obtain ⟨length, hlength, -, -, rfl⟩ := readMapped_ok hv
  obtain ⟨hw, hh⟩ := (hs.valid o.base (List.mem_cons_self ..)).positive
  have hlen : length = 4 * (4 * o.count) := by
    have hbytes : Measure.toLength? (workingBytes o.width o.height) = some (4 * (4 * o.count)) :=
      Stack.Carries.toLength_workingBytes (Int.le_of_lt hw) (Int.le_of_lt hh)
    rw [h.bytes, hbytes] at hlength
    exact (Option.some.inj hlength).symm
  have hcount : length / 4 = 4 * o.count := by omega
  unfold Order.channels
  apply Array.ext
  · rw [Array.size_ofFn, Array.size_ofFn, hcount]
  · intro i hi hi'
    rw [Array.getElem_ofFn, Array.getElem_ofFn]
    apply h.image i
    rw [Array.size_ofFn] at hi'
    exact hi'

omit [Channel α] [Stored α] [Transfer α] in
theorem claims_fill (a : HostArray) (values : Array α) (c : CompositeCall Int α) :
    (e.fill a values).claims c = e.claims c := by
  have howned (i : PlanId) : (e.fill a values).ownedBy i = e.ownedBy i := by
    unfold ownedBy
    rw [plans_fill]
    split
    · cases e.plans[i]? <;> rfl
    · rfl
  unfold claims
  rw [funext howned]

omit [Transfer α] in
theorem fill_safe (hs : e.Safe G) {a : HostArray} {values : Array α} (hroom : values.size ≤ e.room a) :
    (e.fill a values).Safe G where
  sound := hs.sound
  intact := hs.intact
  right := hs.right
  lone := hs.lone
  known := hs.known
  asked := hs.asked
  filled i rec h := by
    rw [plans_fill] at h
    by_cases hi : a = .output i
    · rw [if_pos hi] at h
      obtain ⟨rec', hrec', rfl⟩ := Option.map_eq_some_iff.mp h
      have hold := hs.filled i rec' hrec'
      rw [hi, room_output e hrec'] at hroom
      dsimp only
      rw [size_overwrite]
      exact Nat.max_le.mpr ⟨hroom, hold⟩
    · rw [if_neg hi] at h
      exact hs.filled i rec h
  watched := hs.watched
  spent i h := by
    obtain ⟨rec', hrec', -⟩ := plan_fill e a values (Array.getElem?_eq_getElem (hs.spent i h))
    exact (Array.getElem?_eq_some_iff.mp hrec').1
  -- filling changes outputs, not what was asked to be filled
  drains j c o i token hc ho hp := by
    obtain ⟨hold, hcons, hfit, rec, hrec, hlength⟩ := hs.drains j c o i token hc ho hp
    obtain ⟨rec', hrec', hsame⟩ := plan_fill e a values hrec
    exact ⟨hold, hcons, hfit, rec', hrec', by rw [hsame]; exact hlength⟩
  orderly hready :=
    { live := fun j c hc k hk => (hs.orderly hready).live j c hc k (claims_fill a values c ▸ hk)
      apart := fun i j c d hne hc hd k hk hk' => (hs.orderly hready).apart i j c d hne hc hd k
        (claims_fill a values c ▸ hk) (claims_fill a values d ▸ hk')
      staged := fun j c o hc ho => by
        have hstaged := (hs.orderly hready).staged j c o hc ho
        refine ⟨hstaged.drafted, fun i hp => ?_⟩
        obtain ⟨rec, destination, parts, last, hrec, hcarries⟩ := hstaged.carried i hp
        obtain ⟨rec', hrec', hsame⟩ := plan_fill e a values hrec
        exact ⟨rec', destination, parts, last, hrec', by rw [hsame]; exact hcarries⟩ }

section
variable {token token' : SubmissionId} {d : Download Int} {rest : List (Download Int)} {values : Array α}

/-- A call that waits for a plan has it filled with its own image, now or before. -/
theorem fill_filled (hs : e.Safe G) (hn : e.Promises G token (d :: rest))
    (hv : readMapped (e.pool.device.buffers.block d.buffer) d.bytes (e.room d.target) = .ok values) {j : JobId}
    {c : CompositeCall Int α} {o : Order α} {plan : PlanId} (hc : e.call? j = some c) (ho : G j = some o)
    (hp : c.phase = .draining plan token') (hf : e.Filled o plan ∨ d.target = .output plan) :
    (e.fill d.target values).Filled o plan := by
  obtain ⟨-, -, -, rec, hrec, hlength⟩ := hs.drains j c o plan token' hc ho hp
  by_cases hplan : d.target = .output plan
  · have hshown := (hn.shows d (List.mem_cons_self ..) plan hplan).2 j c o token' hc ho hp
    have hvalues := values_of_shown hshown (hs.asked j o ho).2 hv
    have hsize : values.size = rec.plan.outputLength := by
      rw [hvalues, hlength]
      exact Array.size_ofFn
    refine ⟨_, by rw [plans_fill, if_pos hplan, hrec]; rfl, ?_⟩
    unfold PlanRecord.output
    dsimp only
    rw [overwrite_of_size_le (hsize ▸ hs.filled plan rec hrec), hsize, Nat.sub_self, ← hvalues]
    exact Array.append_empty
  · obtain ⟨rec', hrec', hout⟩ := hf.resolve_right hplan
    exact ⟨rec', by rw [plans_fill, if_neg hplan]; exact hrec', hout⟩

/-- A download that was read has been filled in, and the others are still promised. -/
theorem fill_proceeds (hs : e.Safe G) (hn : e.Promises G token (d :: rest))
    (hv : readMapped (e.pool.device.buffers.block d.buffer) d.bytes (e.room d.target) = .ok values) :
    e.Proceeds G (e.fill d.target values) ∧ (e.fill d.target values).Promises G token rest := by
  have hshown {held : List Handle} {o : Order α} {x : Download Int} (h : e.Shown held o x) :
      (e.fill d.target values).Shown held o x := ⟨h.bytes, h.buffer, h.image, h.slot⟩
  have hsafe : (e.fill d.target values).Safe G := fill_safe hs (by
    obtain ⟨length, -, -, hroom, rfl⟩ := readMapped_ok hv
    rwa [Array.size_ofFn])
  have hkeeps {token : SubmissionId} {ds : List (Download Int)} (hm : e.Promises G token ds) :
      (e.fill d.target values).Promises G token ds := by
    refine ⟨hm.old, fun j c o plan hc ho hp => ?_, fun x hx plan hplan => ?_⟩
    · exact (hm.covers j c o plan hc ho hp).imp_left fun hf => fill_filled hs hn hv hc ho hp (.inl hf)
    · obtain ⟨hcons, hall⟩ := hm.shows x hx plan hplan
      exact ⟨hcons, fun j c o token' hc ho hp => hshown (hall j c o token' hc ho hp)⟩
  have hrest := hkeeps hn
  refine ⟨⟨hsafe, id, fun n hm => ?_, fun n hm => .inl hm⟩, hrest.old, fun j c o plan hc ho hp => ?_, fun x hx =>
    hrest.shows x (List.mem_cons_of_mem _ hx)⟩
  · cases n with
    | arrives | gathered | yields | builds | built => exact hm
    | promises token' ds => exact hkeeps hm
  · rcases hrest.covers j c o plan hc ho hp with hf | ⟨x, hx, hxplan⟩
    · exact .inl hf
    · rcases List.mem_cons.mp hx with rfl | hx
      · exact .inl (fill_filled hs hn hv hc ho hp (.inr hxplan))
      · exact .inr ⟨x, hx, hxplan⟩

end

theorem mapped_proceeds (hs : e.Safe G) {token : SubmissionId} {ds : List (Download Int)} {outcome : Outcome}
    (hn : ∀ n ∈ (Turn.mapped (α := α) token ds outcome).notes, e.Holds G n) :
    e.Proceeds G (e.mapped token ds outcome) := by
  cases outcome with
  | error failure =>
    unfold mapped
    cases ds <;> exact reject_proceeds hs _ _
  | ok u =>
    cases u
    have hpromise : e.Promises G token ds := hn _ (List.mem_singleton_self _)
    cases ds with
    | nil => exact nextDownload_proceeds hs hpromise
    | cons d rest =>
      unfold mapped
      dsimp only
      obtain ⟨-, hb⟩ := e.pool.device.call_id_steady .mappedRange
      generalize e.pool.device.call .mappedRange id = r at hb
      obtain ⟨r, device⟩ := r
      have hset := setDevice_proceeds hs hb
      cases r with
      | error raised => exact hset.trans (reject_proceeds hset.safe _ _)
      | ok u =>
        cases u
        dsimp only
        split
        · exact hset.trans (reject_proceeds hset.safe _ _)
        · rename_i values hvalues
          obtain ⟨hfill, hrest⟩ :=
              fill_proceeds hset.safe (hset.keeps (.promises token (d :: rest)) hpromise) hvalues
          have hall := hset.trans hfill
          obtain ⟨-, hb'⟩ := device.call_id_steady .unmapBuffer
          generalize device.call .unmapBuffer id = r at hb'
          obtain ⟨r, device'⟩ := r
          have hlast := setDevice_proceeds hfill.safe hb'
          cases r with
          | error raised => exact (hall.trans hlast).trans (reject_proceeds hlast.safe _ _)
          | ok u =>
            exact (hall.trans hlast).trans
              (nextDownload_proceeds hlast.safe (hlast.keeps (.promises token rest) hrest))

end Engine

end Strata
