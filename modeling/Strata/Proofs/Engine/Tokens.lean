import Strata.Proofs.Engine.Teardown
import Strata.Proofs.Engine.Verdicts

/-!
# The life of a token

Every move keeps `Life`: what it issues, runs and reads is what it adds to the books (`move_life`).
-/

namespace Strata

variable {ν α : Type}

namespace Engine

variable {B B' : Books ν α} {e e' : Engine ν α} {hand hand' : List (Turn ν α)}

section
variable [Measure ν] {t : SubmissionId}

/-! ### Submitting -/

theorem Life.fresh (h : e.Life B hand) : ¬e.Issued e.token ∧ e.completion.status e.token = .absent ∧
    ¬e.Pending e.token ∧ e.token ∉ e.session.unawaited := by
  have hfresh : ¬e.Issued e.token := by
    rintro ⟨n, -, hlt, heq⟩
    cases heq
    exact Nat.lt_irrefl _ hlt
  have habsent := (h.known e.token).resolve_right hfresh
  refine ⟨hfresh, habsent, fun hp => ?_, fun hu => ?_⟩
  · obtain ⟨ws, hws⟩ := h.pending _ hp
    cases hws.symm.trans habsent
  · rcases h.offered _ hu with hs | ⟨o, hs⟩
    · cases hs.symm.trans habsent
    · cases hs.symm.trans habsent

/-- A submission is begun: it is pending and watched, and nobody waits for it yet. -/
def watching (e : Engine ν α) (pool : Pool ν α) (handles : List Handle) (consumed : List PlanId) : Engine ν α :=
  { e with
    pool
    session := { e.session with
      consumed
      nextToken := e.session.nextToken + 1
      pending := e.session.pending ++ [(e.token, handles)]
      unawaited := e.session.unawaited ++ [e.token] }
    completion := e.completion.watch e.token }

namespace Watching

variable {pool : Pool ν α} {handles : List Handle} {consumed : List PlanId} {s : Encoded ν} {x : SubmissionId}

omit [Measure ν] in
theorem issued (h : 1 ≤ e.session.nextToken) :
    (e.watching pool handles consumed).Issued x ↔ e.Issued x ∨ x = e.token := by
  constructor
  · rintro ⟨n, hn, hlt, rfl⟩
    rcases Nat.lt_succ_iff_lt_or_eq.mp hlt with hlt | rfl
    · exact .inl ⟨n, hn, hlt, rfl⟩
    · exact .inr rfl
  · rintro (⟨n, hn, hlt, rfl⟩ | rfl)
    · exact ⟨n, hn, Nat.lt_succ_of_lt hlt, rfl⟩
    · exact ⟨_, h, Nat.lt_succ_self _, rfl⟩

omit [Measure ν] in
theorem pending : (e.watching pool handles consumed).Pending x ↔ e.Pending x ∨ x = e.token := by
  simp [Pending, watching]

omit [Measure ν] in
theorem opens (hsane : e.completion.Sane) (habsent : e.completion.status e.token = .absent) :
    (e.completion.watch e.token).Open x ↔ x = e.token ∨ e.completion.Open x := by
  obtain ⟨-, hself, hother⟩ := Completion.watch_spec hsane habsent
  unfold Completion.Open
  by_cases hx : x = e.token
  · subst hx
    exact ⟨fun _ => .inl rfl, fun _ => ⟨_, hself⟩⟩
  · rw [hother x hx]
    exact ⟨.inr, fun ho => ho.resolve_left hx⟩

omit [Measure ν] in
theorem underway (hs : s.token = e.token) :
    (e.watching pool handles consumed).underway (.scopesClosed s :: hand) = e.token :: e.underway hand := by
  rw [← hs]
  rfl

theorem onward (h : e.Life B hand) (hs : s.token = e.token) :
    e.Onward B (B.encode s) (e.watching pool handles consumed) := by
  obtain ⟨hfresh, habsent, -, -⟩ := h.fresh
  have hold {x : SubmissionId} (hx : e.Issued x) : x ≠ e.token := fun heq => hfresh (heq ▸ hx)
  have hbooks : B.Extends (B.encode s) := { Books.Extends.refl B with
    encoded := fun x s' hx => by
      have hne : x ≠ s.token := hs ▸ hold (h.encoded x s' hx).1
      exact (if_neg hne).trans hx }
  exact {
    books := hbooks
    pending := fun x hi hp => (pending.mp hp).resolve_right (hold hi)
    opened := fun x hi ho => ((opens h.sane habsent).mp ho).resolve_left (hold hi)
    unawaited := fun x hi hu => (List.mem_append.mp hu).resolve_right fun hx => hold hi (List.mem_singleton.mp hx)
    busy := fun _ hj => hj
    wait := fun _ hj => hj }

theorem recorded (h : e.Life B hand) : (e.watching pool handles consumed).Recorded (B.encode s) e.token := by
  obtain ⟨hfresh, habsent, -, -⟩ := h.fresh
  obtain ⟨-, hself, -⟩ := Completion.watch_spec h.sane habsent
  exact {
    known := .inr ((issued h.first).mpr (.inr rfl))
    pending := fun _ => ⟨_, hself⟩
    closed := iff_of_false (fun hc => hfresh ((h.closed _).mp hc).1) fun hc => hc.2 ⟨_, hself⟩
    kept := fun o ho => nomatch hself.symm.trans ho
    offered := fun _ => .inl hself
    waiters := fun ws hws j hj => by
      cases hself.symm.trans hws
      cases hj }

theorem untouched (h : e.Life B hand) (hx : x ≠ e.token) :
    e.Untouched B (B.encode s) (e.watching pool handles consumed) x where
  status := (Completion.watch_spec h.sane h.fresh.2.1).2.2 x hx
  issued := (issued h.first).trans (or_iff_left hx)
  pending hp := (pending.mp hp).resolve_right hx
  unawaited hu := (List.mem_append.mp hu).resolve_right fun hm => hx (List.mem_singleton.mp hm)
  closed := Iff.rfl

end Watching

theorem Life.begin (h : e.Life B hand) {s : Encoded ν} (hs : s.token = e.token) (hsilent : s.Uncaptured)
    {pool : Pool ν α} (hpool : pool.Able deliveryCalls) (handles : List Handle) (consumed : List PlanId) :
    B.Extends (B.encode s) ∧
      (e.watching pool handles consumed).Life (B.encode s) (.scopesClosed s :: hand) := by
  obtain ⟨hfresh, habsent, -, hunknown⟩ := h.fresh
  have honward : e.Onward B (B.encode s) (e.watching pool handles consumed) := Watching.onward h hs
  have hissued {x : SubmissionId} : (e.watching pool handles consumed).Issued x ↔ _ := Watching.issued h.first
  have hway : (e.watching pool handles consumed).underway (.scopesClosed s :: hand) = _ := Watching.underway hs
  -- all that is said of one submission: the new one is checked, the others are untouched
  have hrecorded (x : SubmissionId) : (e.watching pool handles consumed).Recorded (B.encode s) x := by
    by_cases hx : x = e.token
    · subst hx
      exact Watching.recorded h
    · exact h.untouched honward (Watching.untouched h hx)
  refine ⟨honward.books, ?_⟩
  exact {
    able := ⟨hpool, h.able.sorted⟩
    sane := (Completion.watch_spec h.sane habsent).1
    first := Nat.le_succ_of_le h.first
    once := by
      rw [hway]
      exact List.nodup_cons.mpr ⟨fun hx => hfresh (h.underway _ hx), h.once⟩
    underway := fun x hx => by
      rw [hway] at hx
      rcases List.mem_cons.mp hx with rfl | hx
      · exact hissued.mpr (.inr rfl)
      · exact hissued.mpr (.inl (h.underway x hx))
    known := fun x => (hrecorded x).known
    encoded := fun x s' hx => by
      unfold Books.encode at hx
      dsimp only at hx
      split at hx
      · rename_i heq
        cases hx
        exact ⟨hissued.mpr (.inr (heq.trans hs)), heq.symm, hsilent⟩
      · obtain ⟨hi, ht⟩ := h.encoded x s' hx
        exact ⟨hissued.mpr (.inl hi), ht⟩
    ran := fun x hx => hissued.mpr (.inl (h.ran x hx))
    pending := fun x => (hrecorded x).pending
    coming := fun x hx => by
      rcases (Watching.opens h.sane habsent).mp hx with hx | hx
      · exact .inl (Watching.pending.mpr (.inr hx))
      · exact (h.coming x hx).imp (fun hp => Watching.pending.mpr (.inl hp))
          (Exists.imp fun _ => List.mem_cons_of_mem _)
    closed := fun x => (hrecorded x).closed
    allows := fun x hx => by
      rcases List.mem_cons.mp hx with rfl | hx
      · exact if_pos rfl
      · exact h.onward_allows honward hx
    held := fun s' hs' => ⟨honward.books.encoded _ _ (h.held s' hs').1, (h.held s' hs').2⟩
    verdicts := fun x o hx => by
      obtain ⟨hi, hp, hr⟩ := h.verdicts x o hx
      exact ⟨hissued.mpr (.inl hi), fun hp' => hp (honward.pending x hi hp'), hr.extends honward.books⟩
    kept := fun x => (hrecorded x).kept
    nodup := List.nodup_append.mpr ⟨h.nodup, List.pairwise_singleton _ _, fun a ha b hb heq => hunknown (by
      rw [← List.mem_singleton.mp hb, ← heq]
      exact ha)⟩
    offered := fun x => (hrecorded x).offered
    waiters := fun x => (hrecorded x).waiters
    awaited := h.awaited
    answered := fun x hx => h.onward_answered honward hx
    fetched := h.fetched }

section
variable [Channel α] [Stored α] [Transfer α]

omit [Measure ν] [Channel α] [Stored α] [Transfer α] in
theorem pushScopes_spec {d : Device ν α} (h : ∀ r, (DeviceCall.pushScope, r) ∉ d.faults) :
    ∃ outer inner : Device ν α, d.pushScope .outOfMemory = (.ok (), outer) ∧
      outer.pushScope .validation = (.ok (), inner) ∧ pushScopes d = (.ok (), inner) ∧
      inner.scopes =
        (.validation, d.injected.lookup .validation) :: (.outOfMemory, d.injected.lookup .outOfMemory) :: d.scopes ∧
      inner.injected.lookup .validation = none ∧ inner.injected.lookup .outOfMemory = none ∧
      inner.faults = d.faults := by
  have hlookup (injected : List (ScopeFilter × String)) (f g : ScopeFilter) :
      (injected.filter (·.1 ≠ f)).lookup g = if g = f then none else injected.lookup g := by
    rw [← Completion.lookup_filter_ne]
    exact congrArg _ (List.filter_congr fun x _ => Bool.eq_iff_iff.mpr (by rw [decide_eq_true_iff, bne_iff_ne]))
  let outer : Device ν α := { d with
    scopes := (.outOfMemory, d.injected.lookup .outOfMemory) :: d.scopes
    injected := d.injected.filter (·.1 ≠ .outOfMemory) }
  let inner : Device ν α := { outer with
    scopes := (.validation, outer.injected.lookup .validation) :: outer.scopes
    injected := outer.injected.filter (·.1 ≠ .validation) }
  have houter : d.pushScope .outOfMemory = (.ok (), outer) := Device.call_of_not_mem h _
  have hinner : outer.pushScope .validation = (.ok (), inner) := @Device.call_of_not_mem _ _ outer _ h _
  have hvalidation : outer.injected.lookup .validation = d.injected.lookup .validation :=
    (hlookup d.injected .outOfMemory .validation).trans (if_neg (by decide))
  refine ⟨outer, inner, houter, hinner, ?_, ?_, ?_, ?_, rfl⟩
  · unfold pushScopes
    rw [houter]
    exact hinner
  · exact congrArg (fun captured => (ScopeFilter.validation, captured) :: outer.scopes) hvalidation
  · exact (hlookup outer.injected .validation .validation).trans (if_pos rfl)
  · refine (hlookup outer.injected .validation .outOfMemory).trans ((if_neg (by decide)).trans ?_)
    exact (hlookup d.injected .outOfMemory .outOfMemory).trans (if_pos rfl)

theorem submit_refused (h : e.Able deliveryCalls) {plan : PlanId} {failure : Failure}
    (he : e.submit plan = (.error failure, e')) :
    ∃ pool, pool.Able deliveryCalls ∧ e.pool.device.Steady pool.device ∧ e' = { e with pool } := by
  have hable := submit_able h plan
  rw [he] at hable
  have hopens (pool : Pool ν α) (hp : pool.Able deliveryCalls) : (pushScopes pool.device).1 = .ok () := by
    obtain ⟨outer, inner, -, -, hopened, -⟩ := pushScopes_spec fun r hr => hp.faults _ hr (by simp [deliveryCalls])
    rw [hopened]
  unfold submit at he
  split at he
  · cases he
    exact ⟨e.pool, h.pool, .refl _, rfl⟩
  · cases he
    exact ⟨e.pool, h.pool, .refl _, rfl⟩
  · rename_i rec _ _
    split at he
    · cases he
      exact ⟨e.pool, h.pool, .refl _, rfl⟩
    · dsimp only at he
      have hq := acquireAll_quiet h.pool.sound [] (rec.plan.stages.flatMap Stage.handles)
      split at he
      · rename_i heq
        rw [heq] at hq
        cases he
        exact ⟨_, hable.pool, hq.device, rfl⟩
      · rename_i pool heq
        rw [heq] at hq
        have hok := hopens pool (h.pool.leads hq.toLeads)
        exfalso
        unfold execute at he
        dsimp only at he
        generalize pushScopes pool.device = r at he hok
        obtain ⟨r, device⟩ := r
        cases hok
        cases he

namespace Encoder

omit [Measure ν] [Channel α] [Stored α] [Transfer α] in
theorem resolve_uncaptured (arena : Arena ν) (h : Handle) : Uncaptured (arena.resolve h) := by
  have hlocate : Uncaptured (arena.locate h) := by
    unfold Arena.locate
    split
    · exact .error rfl
    · split
      · exact .ok _
      · exact .error rfl
  exact hlocate.map _

omit [Measure ν] [Channel α] [Stored α] [Transfer α] in
theorem bind_uncaptured (arena : Arena ν) (label : String) (pipeline : Pipeline) (b : Bindings) :
    Uncaptured (bind arena label pipeline b) := by
  unfold bind
  refine (resolve_uncaptured arena b.source).bind fun source => ?_
  refine (resolve_uncaptured arena b.result).bind fun result => ?_
  refine (resolve_uncaptured arena b.params).bind fun params => ?_
  split
  · exact .ok _
  · split
    · exact (resolve_uncaptured arena _).bind fun _ => .ok _
    · exact .error rfl

omit [Measure ν] [Channel α] [Transfer α] in
theorem stage_uncaptured (arena : Arena ν) (plan : PlanId) (c : Encoder ν α) (s : Stage ν α) :
    Uncaptured (c.stage arena plan s).1 := by
  unfold stage
  cases s with
  | allocate | barrier => exact .ok ()
  | upload handle data =>
    have hslot := resolve_uncaptured arena handle
    dsimp only
    split
    · rename_i heq
      exact .error (hslot _ heq)
    · exact .raised _
  | dispatch label pipeline bindings x y =>
    have hbind := bind_uncaptured arena label pipeline bindings
    dsimp only
    split
    · rename_i heq
      exact .error (hbind _ heq)
    · split
      · exact .error (Failure.captured?_ofRaised _)
      · exact .ok ()
  | download source destination bytes =>
    have hdestination := resolve_uncaptured arena destination
    have hsource := resolve_uncaptured arena source
    dsimp only
    split
    · rename_i heq
      exact .error (hdestination _ heq)
    · rename_i heq
      exact .error (hsource _ heq)
    · exact .ok ()

omit [Measure ν] [Channel α] [Transfer α] in
theorem stages_uncaptured (arena : Arena ν) (plan : PlanId) (ss : List (Stage ν α)) (c : Encoder ν α) :
    Uncaptured (c.stages arena plan ss).1 := by
  induction ss generalizing c with
  | nil => exact .ok ()
  | cons s rest ih =>
    have hstage := stage_uncaptured arena plan c s
    unfold stages
    split
    · rename_i heq
      exact .error (hstage _ (congrArg Prod.fst heq))
    · exact ih _

/-- Encoding fails by itself, and not by what a scope has captured. -/
theorem run_uncaptured (arena : Arena ν) (plan : PlanId) (device : Device ν α) (ss : List (Stage ν α)) :
    Uncaptured (run arena plan device ss).1 := by
  unfold run
  split
  · exact .error (Failure.captured?_ofRaised _)
  · rename_i device' _
    have hstages := stages_uncaptured arena plan ss { device := device' }
    split
    · rename_i heq
      exact .error (hstages _ (congrArg Prod.fst heq))
    · split
      · exact .error (Failure.captured?_ofRaised _)
      · exact .ok _

end Encoder

theorem ran_uncaptured (t : SubmissionId) (plan : PlanId) (arena : Arena ν) (device : Device ν α)
    (ss : List (Stage ν α)) : (ran t plan arena device ss).1.Uncaptured :=
  ⟨.raised _, .raised _, Encoder.run_uncaptured arena plan device ss⟩

theorem submit_goes (h : e.Life B []) (plan : PlanId) : (e.submit plan).2.Goes B := by
  have hable := (submit_able h.able plan).pool
  generalize hr : e.submit plan = r at hable
  obtain ⟨r, e'⟩ := r
  cases r with
  | error failure =>
    obtain ⟨pool, hpool, -, rfl⟩ := submit_refused h.able hr
    exact (h.setPool hpool).goes
  | ok token =>
    obtain ⟨rec, pool, device, -, -, rfl⟩ := submit_ok hr
    obtain ⟨hbooks, hlife⟩ := h.begin (s := (ran e.token plan pool.arena device rec.plan.stages).1) rfl
      (ran_uncaptured ..) hable (rec.plan.stages.flatMap Stage.handles) (plan :: e.session.consumed)
    exact ⟨_, ⟨hbooks, fun _ => .inl, .inl rfl⟩, hlife.schedule 2⟩

omit [Channel α] [Stored α] [Transfer α] in
theorem Goes.since (h : e.Goes B') (hb : B.Keeps B') : e.Goes B := h.imp fun _ ⟨hb', hlife⟩ => ⟨hb.trans hb', hlife⟩

omit [Channel α] [Stored α] [Transfer α] in
theorem Goes.bind (h : e.Goes B) (hf : ∀ B', e.Life B' [] → e'.Goes B') : e'.Goes B := by
  obtain ⟨B', hb, hlife⟩ := h
  exact (hf B' hlife).since hb

theorem planned_goes (h : e.Life B []) (job : JobId) : (e.planned job).Goes B := by
  unfold planned
  split
  · rename_i c hc
    split
    · exact (h.chores (leave_chores e job _ _)).goes
    · rename_i plan _
      split
      · exact (h.chores (leave_chores e job _ _)).goes
      · have hsubmit := submit_goes h plan
        have hjobs := (e.submit_kept plan).1
        split
        all_goals
          rename_i heq
          rw [heq] at hsubmit hjobs
        · exact hsubmit.bind fun B' h' => (h'.chores (leave_chores _ job _ _)).goes
        · rename_i token e'
          have hbusy : e'.Busy job := by
            unfold Busy
            rw [hjobs]
            exact busy_of_call hc
          have hcall := setCall_chores hbusy { c with phase := .draining plan token }
          refine hsubmit.bind fun B' h' => ?_
          dsimp only
          split
          · have hlisten (listeners) :=
              hcall.trans (Chore.note (e'.setCall job _) e'.config e'.lossAnnounced e'.signals
              listeners e'.gated e'.log).chores
            exact ((h'.chores (hlisten _)).waitFor (.inl ((hlisten _).busy hbusy))).goes
          · exact ((h'.chores hcall).waitFor (.inl (hcall.busy hbusy))).goes
    · exact h.goes
  · exact h.goes

/-! ### Turns -/

/-- A turn that tells of a submission the queue is done with, in a session that is ready. -/
def Runs (e : Engine ν α) (x : Turn ν α) (t : SubmissionId) : Prop :=
  e.session.phase = .ready ∧ ∃ s : Encoded ν, s.token = t ∧ x = .workDone s (.ok ())

theorem perform_life {x : Turn ν α} (h : e.Life B [x]) (hx : x.isLoss = false) :
    ∃ B', B.Adds B' (e.Runs x) (e.Copies x) ∧ (e.perform x).Life B' [] := by
  have hgoes {e' : Engine ν α} (h' : e'.Goes B) : ∃ B', B.Adds B' (e.Runs x) (e.Copies x) ∧ e'.Life B' [] :=
    h'.imp fun _ ⟨hb, hlife⟩ => ⟨hb.adds, hlife⟩
  have hchores {e' : Engine ν α} (hr : x.reports = false) (hc : e.Chores e') :
      ∃ B', B.Adds B' (e.Runs x) (e.Copies x) ∧ e'.Life B' [] := hgoes ((h.drop (.inl hr)).chores hc).goes
  cases x with
  | buildUngated serial key => exact hchores rfl (buildUngated_chores e serial key)
  | buildEnded serial result => exact hchores rfl (buildEnded_chores h.able.sorted serial result)
  | pipelineArrived job index result => exact hchores rfl (pipelineArrived_chores e job index result)
  | planReady job result => exact hchores rfl (planReady_chores e job result)
  | planned job => exact hgoes (planned_goes (h.drop (.inl rfl)) job)
  | scopesClosed s => exact hgoes (scopesClosed_life h).goes
  | workDone s o =>
    obtain ⟨B', hadds, hlife⟩ := workDone_life h
    refine ⟨B', hadds.mono ?_ fun _ => False.elim, hlife⟩
    rintro t ⟨rfl, rfl, hready⟩
    exact ⟨hready, s, rfl, rfl⟩
  | mapped t ds o =>
    obtain ⟨B', hadds, hlife⟩ := mapped_life h
    exact ⟨B', hadds.mono (fun _ => False.elim) fun _ => id, hlife⟩
  | rejected t failure =>
    have howns : B.Owns t (.error failure) := h.allows (.rejected t failure) (List.mem_cons_self ..)
    have hcarried : e.Life B [.finished t (.error (e.classify failure))] :=
      h.carry rfl rfl ⟨nofun, howns.of_same (e.captured?_classify failure)⟩
    exact hgoes (hcarried.schedule 1).goes
  | finished t o => exact hgoes (finished_goes h)
  | reported t o => exact hgoes (reported_goes h)
  | lossSeen reason message => cases hx
  | collected j t o => exact hgoes (collected_life h).goes
  | drained job t o => exact hchores rfl (drained_chores e job t o)
  | resumed job t o => exact hchores rfl (resumed_chores e job t o)
  | attemptEnded job result => exact hchores rfl (attemptEnded_chores e job result)

/-! ### The end of a session -/

/-- Some submissions were settled with a failure, and nothing else was told to anybody. -/
structure Abandoned (e : Engine ν α) (tokens : List SubmissionId) (failure : Failure) (e' : Engine ν α) : Prop where
  told : ∀ t ∈ tokens, e.Pending t → e'.Told t (.error failure)
  other : ∀ t ∉ tokens, e'.completion.status t = e.completion.status t
  kept : ∀ t o, e.Told t o → e'.Told t o
  turns : e.turns ⊆ e'.turns

omit [Channel α] [Stored α] [Transfer α] in
/-- Settling a submission that is pending, or has settled before. -/
theorem Life.abandon {pool : Pool ν α} (h : e.Life B []) (ht : e.Pending t ∨ ¬e.completion.Open t)
    (hpool : pool.Able deliveryCalls) {failure : Failure} (hf : failure.captured? = none) :
    (e.decided pool t (.error failure)).Goes B ∧ e.Abandoned [t] failure (e.decided pool t (.error failure)) ∧
      (∀ x, (e.decided pool t (.error failure)).Pending x ↔ e.Pending x ∧ x ≠ t) ∧
      ∀ x, (e.decided pool t (.error failure)).completion.Open x ↔ x ≠ t ∧ e.completion.Open x := by
  by_cases hp : e.Pending t
  · have hopen := h.pending t hp
    have hfits : B.Fits t (.error failure) := ⟨nofun, .of_uncaptured (.error hf)⟩
    obtain ⟨hbooks, hlife⟩ := h.decide (v := .error failure) hopen (.inl hp) hfits hpool
    obtain ⟨htold, hother, hturns⟩ := h.decide_told (v := .error failure) pool hopen
    have hopens := Decided.opens (v := .error failure) h.sane hopen
    refine ⟨⟨_, ⟨hbooks, fun _ => .inl, .inl rfl⟩, hlife⟩,
      ⟨fun x hx _ => ?_, fun x hx => hother x (by simpa using hx), fun x o hx => ?_, hturns⟩, fun x => ?_, ?_⟩
    · rw [List.mem_singleton.mp hx]
      exact htold
    · rcases hx with hx | ⟨delay, j, hx⟩
      · have hne : x ≠ t := by
          rintro rfl
          obtain ⟨ws, hws⟩ := hopen
          cases hws.symm.trans hx
        exact .inl ((hother x hne).trans hx)
      · exact .inr ⟨delay, j, hturns hx⟩
    all_goals
      obtain ⟨ws, hws⟩ := hopen
      rw [Decided.eq h.sane hws]
    · exact mem_pending_filter pool
    · exact hopens
  · -- it had settled, so nothing is told
    have hclosed := ht.resolve_left hp
    have hfilter : e.session.pending.filter (·.1 != t) = e.session.pending :=
      List.filter_eq_self.mpr fun x hx => bne_iff_ne.mpr fun heq => hp (heq ▸ List.mem_map_of_mem hx)
    have heq : e.decided pool t (.error failure) = { e with pool } := by
      unfold decided
      rw [Completion.settle_closed hclosed, hfilter]
      rfl
    rw [heq]
    refine ⟨(h.setPool hpool).goes, ⟨fun x hx hpx => ?_, fun _ _ => rfl, fun _ _ hx => hx, List.Subset.refl _⟩,
      fun x => ?_, fun x => ?_⟩
    · rw [List.mem_singleton.mp hx] at hpx
      exact absurd hpx hp
    · exact ⟨fun hx => ⟨hx, fun heq => hp (heq ▸ hx)⟩, fun hx => hx.1⟩
    · exact ⟨fun hx => ⟨fun heq => hclosed (heq ▸ hx), hx⟩, fun hx => hx.2⟩

omit [Channel α] [Stored α] [Transfer α] in
theorem abandon_each {failure : Failure} (hf : failure.captured? = none) (tokens : List SubmissionId)
    (h : e.Life B []) (ht : ∀ t ∈ tokens, e.Pending t ∨ ¬e.completion.Open t) :
    let e' := (Attempt.each (fun (e : Engine ν α) token => (e.finish token).andThen fun _ e =>
      let (woken, completion) := e.completion.abandon token failure
      (.ok (), { e with completion }.wake token woken)) e tokens).2
    e'.Goes B ∧ e.Abandoned tokens failure e' := by
  induction tokens generalizing e B with
  | nil => exact ⟨h.goes, ⟨nofun, fun _ _ => rfl, fun _ _ ht => ht, List.Subset.refl _⟩⟩
  | cons t rest ih =>
    obtain ⟨pool, hpool, hfinish⟩ := finish_eq h.able t
    have hstep : (e.finish t).andThen (fun _ e =>
        let (woken, completion) := e.completion.abandon t failure
        (.ok (), ({ e with completion } : Engine ν α).wake t woken)) =
          (.ok (), e.decided pool t (.error failure)) := by
      rw [hfinish]
      rfl
    obtain ⟨⟨B', hkeeps, hlife⟩, hfirst, hpending, hopens⟩ :=
      h.abandon (ht t (List.mem_cons_self ..)) hpool hf
    obtain ⟨hgoes, hrest⟩ := ih hlife fun x hx => by
      rw [hpending, hopens]
      by_cases hne : x = t
      · exact .inr fun ho => ho.1 hne
      · exact (ht x (List.mem_cons_of_mem _ hx)).imp (fun hp => ⟨hp, hne⟩) fun hc ho => hc ho.2
    unfold Attempt.each
    rw [hstep]
    refine ⟨hgoes.since hkeeps, ⟨fun x hx hp => ?_, fun x hx => ?_,
      fun x o => hrest.kept x o ∘ hfirst.kept x o, List.Subset.trans hfirst.turns hrest.turns⟩⟩
    · by_cases hne : x = t
      · subst hne
        exact hrest.kept x _ (hfirst.told x (List.mem_singleton_self _) hp)
      · exact hrest.told x ((List.mem_cons.mp hx).resolve_left hne) ((hpending x).mpr ⟨hp, hne⟩)
    · have hne : x ∉ [t] := fun hx' => hx (List.mem_cons.mpr (.inl (List.mem_singleton.mp hx')))
      exact (hrest.other x fun hx' => hx (List.mem_cons_of_mem _ hx')).trans (hfirst.other x hne)

omit [Channel α] [Stored α] [Transfer α] in
theorem abandonPending_life (h : e.Life B []) {failure : Failure} (hf : failure.captured? = none) :
    (e.abandonPending failure).2.Goes B ∧
      e.Abandoned (e.session.pending.map (·.1)) failure (e.abandonPending failure).2 :=
  abandon_each hf _ h fun _ ht => .inl ht

omit [Measure ν] [Channel α] [Stored α] [Transfer α] in
theorem discard_each (tokens : List SubmissionId) (e : Engine ν α) (session : Session) :
    tokens.foldl (fun (e : Engine ν α) token =>
      let (woken, completion) := e.completion.discard token
      { e with completion }.wake token woken) { e with session } =
    { tokens.foldl (fun (e : Engine ν α) token =>
      let (woken, completion) := e.completion.discard token
      { e with completion }.wake token woken) e with session } := by
  induction tokens generalizing e with
  | nil => rfl
  | cons t rest ih =>
    rw [List.foldl_cons, List.foldl_cons, ← ih]
    dsimp only
    rw [wake_eq, wake_eq]

omit [Channel α] [Stored α] [Transfer α] in
/-- What nobody has asked to wait for is forgotten; nobody waits for it. -/
theorem discardUnawaited_goes (h : e.Life B []) (hp : e.session.pending = []) : e.discardUnawaited.Goes B := by
  have hall (tokens : List SubmissionId) : ∀ (e : Engine ν α) (B : Books ν α), e.Life B [] →
      e.session.pending = [] →
      e.session.unawaited = [] → (∀ t ∈ tokens, e.Issued t ∧ ∀ ws, e.completion.status t = .waiting ws → ws = []) →
      (tokens.foldl (fun (e : Engine ν α) token =>
        let (woken, completion) := e.completion.discard token
        { e with completion }.wake token woken) e).Goes B := by
    induction tokens with
    | nil => exact fun e B h _ _ _ => h.goes
    | cons t rest ih =>
      intro e B h hp hu ht
      obtain ⟨hissued, hsilent⟩ := ht t (List.mem_cons_self ..)
      obtain ⟨hsane, hself, hother, hwoken⟩ := Completion.discard_spec h.sane t
      have hstruck := h.strike hissued (by unfold Pending; rw [hp]; nofun)
          (by rw [hu]; nofun) hsane (.inl hself) hother
      have hnext := ih { e with completion := (e.completion.discard t).2 } (B.close t) hstruck hp hu fun x hx => by
        refine ⟨(ht x (List.mem_cons_of_mem _ hx)).1, fun ws hws => ?_⟩
        by_cases hne : x = t
        · subst hne
          cases hself.symm.trans hws
        · exact (ht x (List.mem_cons_of_mem _ hx)).2 ws ((hother x hne).symm.trans hws)
      have hwake : ({ e with completion := (e.completion.discard t).2 } : Engine ν α).wake t
          (e.completion.discard t).1 =
          { e with completion := (e.completion.discard t).2 } := by
        rw [hwoken hsilent]
        rfl
      rw [List.foldl_cons]
      dsimp only
      rw [hwake]
      exact hnext.since ⟨B.extends_close t, fun _ => .inl, .inl rfl⟩
  have hforget : ({ e with session := { e.session with unawaited := [] } } : Engine ν α).Life B [] :=
    h.withdraw List.nodup_nil (List.nil_subset _)
  have hgoes := hall e.session.unawaited _ B hforget hp rfl fun t ht =>
    ⟨h.issued_of_unawaited ht, fun ws hws => (h.recorded t).waiters_of_offered ht hws⟩
  rw [discard_each] at hgoes
  have hsession := congrArg Engine.session (discard_each e.session.unawaited e e.session)
  unfold discardUnawaited
  dsimp only at hsession ⊢
  rw [hsession]
  exact hgoes

theorem closePipelines_life (h : e.Life B []) (closing : Closing) : (e.closePipelines closing).Life B [] := by
  let closed : Engine ν α := { e with cache := (e.cache.close closing).2 }
  have hable : closed.Able deliveryCalls :=
    (Deed.closeCache (R := fun _ => False) e closing).able (fun _ => False.elim) h.able
  have hclosed : closed.Life B [] := h.beside hable { Beside.refl e with }
  have hanswers : closed.Chores (e.closePipelines closing) := answerAll_chores fun x hx j hj => by
    obtain ⟨w, hw, rfl⟩ := List.mem_map.mp hx
    cases hj
    exact h.able.sorted j (@Cache.Owes.of_refused _ closing _ hw)
  exact hclosed.chores hanswers

theorem shutDown_life (h : e.Life B []) (closing : Closing) : (e.shutDown closing).2.Life B [] := by
  have hpool : ({ e with pool := (e.pool.close closing).2 } : Engine ν α).Life B [] :=
    h.beside ⟨h.able.pool.leads (Pool.close_spec h.able.pool.sound closing).1, h.able.sorted⟩ { Beside.refl e with }
  refine Attempt.andThen_keeps (P := fun e' : Engine ν α => e'.Life B []) hpool fun _ _ => ?_
  have hpipes := closePipelines_life hpool closing
  have hable := (Deed.destroyDevice (R := fun _ => False) (({ e with pool := (e.pool.close closing).2 } :
    Engine ν α).closePipelines closing)).able (fun _ => False.elim) hpipes.able
  exact hpipes.beside hable { Beside.refl _ with }

theorem Abandoned.shutDown {tokens : List SubmissionId} {failure : Failure} (h : e.Abandoned tokens failure e')
    (hs : e'.Sorted) (closing : Closing) : e.Abandoned tokens failure (e'.shutDown closing).2 := by
  have hdeeds : Deeds (fun _ => True) e' (e'.shutDown closing).2 := shutDown_deeds hs trivial
  have hturns := hdeeds.retains.turns
  have hsame := e'.shutDown_completion closing
  have htold (t : SubmissionId) (o : Outcome) (ht : e'.Told t o) : (e'.shutDown closing).2.Told t o := by
    unfold Told
    rw [hsame]
    exact ht.imp_right fun ⟨delay, j, hj⟩ => ⟨delay, j, hturns hj⟩
  exact ⟨fun t ht hp => htold t _ (h.told t ht hp), fun t ht => by rw [hsame]; exact h.other t ht,
    fun t o => htold t o ∘ h.kept t o, List.Subset.trans h.turns hturns⟩

theorem destroy_goes (h : e.Life B []) : e.destroy.2.Goes B := by
  unfold destroy
  split
  · exact h.goes
  · let destroyed : Engine ν α := { e with session := { e.session with phase := .destroyed } }
    have hphase : destroyed.Life B [] := h.beside ⟨h.able.pool, h.able.sorted⟩ { Beside.refl e with }
    have hpending : (destroyed.abandonPending (.of (.sessionDestroyed .deviceLost))).2.Goes B :=
      (abandonPending_life hphase rfl).1
    have hidle := (abandonPending_idle hphase.able (by simp [deliveryCalls])
        (.of (.sessionDestroyed .deviceLost))).2
    refine Attempt.andThen_keeps (P := fun e' : Engine ν α => e'.Goes B) hpending fun _ _ => ?_
    exact (hpending.bind fun B' h' => discardUnawaited_goes h' hidle).bind fun B' h' => (shutDown_life h' _).goes

/-- The loss of the device settles what is pending, and nothing else. -/
theorem lossSeen_life (h : e.Life B []) (reason message : String) : (e.lossSeen reason message).Goes B ∧
    (e.session.phase ≠ .destroyed → e.Abandoned (e.session.pending.map (·.1))
      (.of (.deviceLostBecause reason message))
      (e.lossSeen reason message)) := by
  unfold lossSeen
  split
  · rename_i hd
    exact ⟨h.goes, fun hn => absurd hd hn⟩
  · let lost : Engine ν α :=
        { e.report (.deviceLost reason message) with session := { e.session with phase := .lost } }
    have hlost : lost.Life B [] := h.beside ⟨h.able.pool, h.able.sorted⟩ { Beside.refl e with }
    have hcaptured : (Failure.of (.deviceLostBecause reason message)).captured? = none := rfl
    obtain ⟨hgoes, habandoned⟩ := abandonPending_life hlost hcaptured
    have hfirst : e.Abandoned (e.session.pending.map (·.1)) (.of (.deviceLostBecause reason message))
        (lost.abandonPending (.of (.deviceLostBecause reason message))).2 :=
      ⟨habandoned.told, habandoned.other, habandoned.kept, habandoned.turns⟩
    have hboth := Attempt.andThen_keeps (P := fun e' : Engine ν α => e'.Goes B ∧
        e.Abandoned (e.session.pending.map (·.1)) (.of (.deviceLostBecause reason message)) e')
      (a := lost.abandonPending (.of (.deviceLostBecause reason message))) (f := fun _ e => e.shutDown
        ⟨(Complaint.deviceLostBecause reason message).code, (Complaint.deviceLostBecause reason message).message⟩)
      ⟨hgoes, hfirst⟩ fun _ _ => ?_
    · exact ⟨hboth.1, fun _ => hboth.2⟩
    · refine ⟨hgoes.bind fun B' h' => (shutDown_life h' _).goes, ?_⟩
      obtain ⟨B', -, hlife⟩ := hgoes
      exact hfirst.shutDown hlife.able.sorted _

end

end

end Engine

/-! ### Moves -/

/-- An operation lets submissions be watched and finished. -/
def Operation.LeavesDelivery : Operation ν α → Prop
  | fault call _ => call ∉ deliveryCalls
  | _ => True

def Move.LeavesDelivery : Move ν α → Prop
  | call op => op.LeavesDelivery
  | turn _ | fire => True

namespace Engine

variable {B B' : Books ν α} {e e' : Engine ν α} [Measure ν] [Channel α] [Stored α] [Transfer α] {t : SubmissionId}

omit [Channel α] [Stored α] [Transfer α] in
theorem release_each (held : List (Encoded ν)) (h : e.Life B []) (he : e.heldBack = held) :
    (held.foldl (fun (e : Engine ν α) s => e.schedule 1 (.workDone s (.ok ()))) { e with heldBack := [] }).Life B
    [] := by
  induction held generalizing e with
  | nil => exact h.beside ⟨h.able.pool, h.able.sorted⟩ { Beside.refl e with heldBack := he.symm }
  | cons s rest ih =>
    have hreleased := (h.release he).schedule 1
    exact ih hreleased rfl

omit [Channel α] [Stored α] [Transfer α] in
theorem unhold_life (h : e.Life B []) : e.unhold.Life B [] := by
  have hrest : e.pool.device.Rests { e.pool.device with held := false } :=
    ⟨⟨rfl, rfl, rfl, rfl, List.Subset.refl _⟩, rfl⟩
  exact release_each e.heldBack (h.setDevice hrest) rfl

theorem carryOut_goes (h : e.Life B []) {op : Operation ν α} (hop : op.LeavesDelivery) :
    (e.carryOut op).2.Goes B := by
  have hchores {e' : Engine ν α} (hc : e.Chores e') : e'.Goes B := (h.chores hc).goes
  have hpool {pool : Pool ν α} (hp : pool.Able deliveryCalls) : ({ e with pool } : Engine ν α).Goes B :=
    (h.setPool hp).goes
  have hrequest {r : Pool.Request ν} (hr : op.request? = some r) (hs : r.Spares deliveryCalls) :
      (e.carryOut op).2.Goes B := by
    rw [carryOut_request hr]
    exact hpool (h.able.pool.perform hs)
  have hcalled (call : DeviceCall) {f : Device ν α → Device ν α} (hf : ∀ d : Device ν α, d.Rests (f d)) :
      (e.onDeviceCall call f).2.Life B [] := h.chores (onDeviceCall_chores e call hf)
  cases op with
  | allocate | acquire | relinquish | release | invalidate | trim | closeArena | limitAllocation =>
    exact hrequest rfl trivial
  | resolve | contains | checkArena | read | supports | hasPipeline | output | checkUsable | config => exact h.goes
  | lookUp key => exact hchores (lookupPipeline_chores e key)
  | clearPipelines => exact hchores (Chore.cache e e.cache.clear rfl fun j hj => .inl hj).chores
  | closePipelines closing => exact (closePipelines_life h closing).goes
  | makePlan stack uploads => exact hchores (startPlan_chores e stack uploads)
  | takePlan plan => exact hchores (Chore.addPlan e plan).chores
  | makeArray values => exact hchores (Chore.makeArray e values).chores
  | submit plan => exact submit_goes h plan
  | wait token => exact startWait_goes h token
  | destroy => exact destroy_goes h
  | composite layers options verifies => exact hchores (startComposite_chores e layers options verifies)
  | configure change => exact hchores (configure_chores e change)
  | newSignal => exact hchores (Chore.note e e.config e.lossAnnounced _ e.listeners e.gated e.log).chores
  | abort signal reason => exact hchores (abort_chores e signal reason)
  | inject filter message =>
    exact (hcalled .inject (f := (·.inject filter message)) fun _ =>
      ⟨⟨rfl, rfl, rfl, rfl, List.Subset.refl _⟩, rfl⟩).goes
  | fault call raised =>
    refine hpool ⟨h.able.pool.sound.setDevice rfl, fun x hx => ?_⟩
    rcases List.mem_append.mp hx with hx | hx
    · exact h.able.pool.faults x hx
    · rw [List.mem_singleton.mp hx]
      exact hop
  | lose message =>
    have hcall := hcalled .lose (f := id) Device.Rests.refl
    exact Attempt.andThen_keeps (P := fun e' : Engine ν α => e'.Goes B) hcall.goes fun _ _ =>
      (hcall.chores (lose_chores _ message)).goes
  | uncaptured message => exact hchores (report_chores e _)
  | hold =>
    exact (hcalled .hold (f := fun d => { d with held := true }) fun _ =>
      ⟨⟨rfl, rfl, rfl, rfl, List.Subset.refl _⟩, rfl⟩).goes
  | unhold =>
    have hcall := hcalled .unhold (f := id) Device.Rests.refl
    exact Attempt.andThen_keeps (P := fun e' : Engine ν α => e'.Goes B) hcall.goes fun _ _ =>
      (unhold_life hcall).goes
  | gate =>
    exact (hcalled .gate (f := fun d => { d with gate := some (d.gates + 1), gates := d.gates + 1 }) fun _ =>
      ⟨⟨rfl, rfl, rfl, rfl, List.Subset.refl _⟩, rfl⟩).goes
  | openGate =>
    show Goes B (if e.pool.device.gates = 0 then (.error (.host .mistyped), e) else
      e.openGate.replyDone : Answered ν α).2
    split
    · exact h.goes
    · exact hchores (openGate_chores e)
  | refuseBuilds on =>
    have hrests : e.pool.device.Rests { e.pool.device with refusesBuilds := on } :=
      ⟨⟨rfl, rfl, rfl, rfl, List.Subset.refl _⟩, rfl⟩
    exact (h.setDevice hrests).goes

theorem apply_goes (h : e.Life B []) {op : Operation ν α} (hop : op.LeavesDelivery) : (e.apply op).2.Goes B := by
  unfold Engine.apply
  split
  · exact h.goes
  · exact carryOut_goes h hop

/-- A ready session learns that the queue is done with a submission. -/
def Completes (e : Engine ν α) (m : Move ν α) (t : SubmissionId) : Prop := ∃ x, e.Takes m x ∧ e.Runs x t

/-- A move reads a download into its array. -/
def Fetches (e : Engine ν α) (m : Move ν α) (r : Reading ν α) : Prop :=
  (∃ x, e.Takes m x ∧ e.Copies x r) ∧ (e.move m).Fetched r

theorem taken_life {x : Turn ν α} {delay : Nat} {rest : List (Nat × Turn ν α)} (h : e.Life B [])
    (hp : e.turns.Perm ((delay, x) :: rest)) :
    ∃ B', B.Adds B' (e.Runs x) (e.Copies x) ∧ (({ e with turns := rest } : Engine ν α).perform x).Life B' [] := by
  have htaken := h.take hp
  cases hx : x.isLoss with
  | false =>
    obtain ⟨B', hadds, hlife⟩ := perform_life htaken hx
    exact ⟨B', hadds.mono (fun _ => id) fun _ hr => ⟨hr.turn, hr.values, hr.room⟩, hlife⟩
  | true =>
    cases x with
    | lossSeen reason message =>
      obtain ⟨B', hkeeps, hlife⟩ := (lossSeen_life (htaken.drop (.inl rfl)) reason message).1
      exact ⟨B', hkeeps.adds, hlife⟩
    | _ => cases hx

theorem move_life (h : e.Life B []) {m : Move ν α} (hm : m.LeavesDelivery) :
    ∃ B', B.Adds B' (e.Completes m) (e.Fetches m) ∧ (e.move m).Life B' [] := by
  have htaken {x : Turn ν α} {delay : Nat} {rest : List (Nat × Turn ν α)} (hp : e.turns.Perm ((delay, x) :: rest))
      (hx : e.Takes m x) (hmove : e.move m = ({ e with turns := rest } : Engine ν α).perform x) :
      ∃ B', B.Adds B' (e.Completes m) (e.Fetches m) ∧ (e.move m).Life B' [] := by
    obtain ⟨B', hadds, hlife⟩ := taken_life h hp
    rw [← hmove] at hlife
    refine ⟨B', ⟨hadds.books, fun t ht => (hadds.ran t ht).imp_right fun hr => ⟨x, hx, hr⟩, ?_⟩, hlife⟩
    refine hadds.readings.imp_right fun ⟨r, hr, heq⟩ => ⟨r, ⟨⟨x, hx, hr⟩, ?_⟩, heq⟩
    exact hlife.fetched [] r _ heq nofun
  rcases e.move_cases m with ⟨op, rfl⟩ | ⟨x, delay, rest, htakes, hperm, hmove⟩ | ⟨-, turns, hperm, hmove⟩
  · obtain ⟨B', hkeeps, hlife⟩ := apply_goes h hm
    exact ⟨B', hkeeps.adds, hlife⟩
  · exact htaken hperm htakes hmove
  · exact ⟨B, (Books.Keeps.refl B).adds, hmove ▸ h.reorder hperm⟩

omit [Stored α] [Transfer α] in
theorem Opened.life (h : e.Opened) (hd : ∀ x ∈ e.pool.device.faults, x.1 ∉ deliveryCalls) : e.Life {} [] := by
  have hable := h.able hd
  obtain ⟨device, o, config, rfl⟩ := h.eq
  have habsent (t : SubmissionId) : (Completion.ofPlatform o.platform : Completion JobId).status t = .absent :=
    Completion.status_ofPlatform o.platform t
  have hclosed (t : SubmissionId) : ¬(Completion.ofPlatform o.platform : Completion JobId).Open t := by
    rintro ⟨ws, hws⟩
    cases (habsent t).symm.trans hws
  exact {
    able := hable
    sane := Completion.sane_ofPlatform o.platform
    first := Nat.le_refl _
    once := List.nodup_nil
    underway := fun t ht => absurd ht List.not_mem_nil
    known := fun t => .inl (habsent t)
    encoded := fun t s hs => by cases hs
    ran := fun t ht => ht.elim
    pending := fun t ht => absurd ht List.not_mem_nil
    coming := fun t ht => absurd ht (hclosed t)
    closed := fun t => ⟨False.elim, fun ⟨⟨n, hn, hlt, _⟩, _⟩ => absurd hlt (Nat.not_lt_of_le hn)⟩
    allows := fun x hx => absurd hx List.not_mem_nil
    held := fun s hs => absurd hs List.not_mem_nil
    verdicts := fun t o hv => by cases hv
    kept := fun t o ht => by cases (habsent t).symm.trans ht
    nodup := List.nodup_nil
    offered := fun t ht => absurd ht List.not_mem_nil
    waiters := fun t ws ht => by cases (habsent t).symm.trans ht
    awaited := fun j t hj => by cases hj
    answered := fun x hx => absurd hx List.not_mem_nil
    fetched := fun newer r older heq => by cases newer <;> cases heq }

/-! ### What does not come back -/

/-- Tokens stay issued, those that somebody has waited for stay so, and a destroyed session stays destroyed. -/
structure Ages (e e' : Engine ν α) : Prop where
  issued : ∀ t, e.Issued t → e'.Issued t
  unawaited : ∀ t, e.Issued t → t ∈ e'.session.unawaited → t ∈ e.session.unawaited
  destroyed : e.session.phase = .destroyed → e'.session.phase = .destroyed

section
omit [Measure ν] [Channel α] [Stored α] [Transfer α]

theorem Ages.refl (e : Engine ν α) : e.Ages e := ⟨fun _ => id, fun _ _ => id, id⟩

theorem Ages.trans {e'' : Engine ν α} (h : e.Ages e') (h' : e'.Ages e'') : e.Ages e'' :=
  ⟨fun t => h'.issued t ∘ h.issued t, fun t ht => h.unawaited t ht ∘ h'.unawaited t (h.issued t ht),
    h'.destroyed ∘ h.destroyed⟩

theorem Ages.of_session (h : e'.session = e.session) : e.Ages e' := by
  refine ⟨fun t => ?_, fun t _ => ?_, ?_⟩
  · unfold Issued
    rw [h]
    exact id
  · rw [h]
    exact id
  · rw [h]
    exact id

end

variable {R : Pool.Request ν → Prop}

theorem Act.ages (h : Act R e e') : e.Ages e' := by
  cases h with
  | chore hc => cases hc <;> exact .of_session rfl
  | await job token hu => exact ⟨fun _ => id, fun _ _ => List.mem_of_mem_erase, id⟩
  | forget => exact ⟨fun _ => id, fun _ _ hu => absurd hu List.not_mem_nil, id⟩
  | submit plan =>
    rcases e.submit_cases plan with heq | ⟨rec, failure, pool, -, -, heq⟩ |
      ⟨rec, pool, device, turns, completion, -, -, -, -, heq⟩
    all_goals rw [heq]
    · exact .refl e
    · exact .of_session rfl
    · refine ⟨fun t ⟨n, hn, hlt, ht⟩ => ⟨n, hn, Nat.lt_succ_of_lt hlt, ht⟩, fun t ⟨n, _, hlt, ht⟩ hu => ?_, id⟩
      refine (List.mem_append.mp hu).resolve_right fun hu => ?_
      -- The token that is new was not issued before.
      rw [List.mem_singleton.mp hu] at ht
      cases ht
      exact Nat.lt_irrefl _ hlt
  | finish token =>
    unfold Engine.finish
    split
    · exact .refl e
    · exact ⟨fun _ => id, fun _ _ => id, id⟩
  | deliver | fill | addWait | tell | collect | discard | request => exact .of_session rfl

theorem Deeds.ages (h : Deeds R e e') : e.Ages e' := by
  induction h with
  | refl => exact .refl e
  | tail _ h ih =>
    refine ih.trans ?_
    cases h with
    | act h => exact h.ages
    | phase phase hp hd => exact ⟨fun _ => id, fun _ _ => id, fun h => absurd h hd⟩
    | closeCache | destroyDevice => exact .of_session rfl

theorem run_ages (hs : e.Sorted) (moves : List (Move ν α)) :
    e.Ages (e.run moves) ∧ (e.run moves).supervised = e.supervised ∧ (e.run moves).Sorted := by
  induction moves generalizing e with
  | nil => exact ⟨.refl e, rfl, hs⟩
  | cons m moves ih =>
    obtain ⟨turns, -, hdeeds⟩ := move_deeds (R := fun _ => True) hs m (fun _ => trivial) (fun _ _ _ _ => trivial)
      fun _ _ _ => trivial
    have htaken : e.Ages { e with turns } := .of_session rfl
    have hfirst := htaken.trans hdeeds.ages
    obtain ⟨hages, hsupervised, hsorted⟩ := ih (hdeeds.sorted (e := { e with turns }) hs)
    exact ⟨hfirst.trans hages, hsupervised.trans hdeeds.retains.supervised, hsorted⟩

end Engine

/-- What a download is read into, and how much of it. -/
def Stage.download? : Stage ν α → Option (Target × ν)
  | download _ destination bytes => some (destination.target, bytes)
  | _ => none

namespace Engine

variable {B B' : Books ν α} {e e' : Engine ν α} [Measure ν] [Channel α] [Stored α] [Transfer α] {t : SubmissionId}

omit [Measure ν] [Channel α] [Transfer α] in
theorem Encoder.Effect.downloads {arena : Arena ν} {plan : PlanId} {heap heap' : Heap α} {ss : List (Stage ν α)}
    {cs : List (Command ν)} {ds : List (Download ν)} (h : Encoder.Effect arena plan heap ss heap' cs ds) :
    ds.map (fun d => (d.target, d.bytes)) =
      (ss.filterMap Stage.download?).map fun x => (x.1.within plan, x.2) := by
  induction h with
  | done => rfl
  | upload _ _ _ ih => exact ih
  | dispatch _ _ ih => exact ih
  | download _ _ _ ih => exact congrArg (_ :: ·) ih

/-- Every download of a plan is to be read once its submission is encoded. -/
theorem ran_downloads {arena : Arena ν} {plan : PlanId} {device : Device ν α} {ss : List (Stage ν α)}
    {ds : List (Download ν)} (h : (ran t plan arena device ss).1.downloads = .ok ds) :
    ds.map (fun d => (d.target, d.bytes)) =
      (ss.filterMap Stage.download?).map fun x => (x.1.within plan, x.2) := by
  have hrun : Encoder.run arena plan device ss = (.ok ds, (Encoder.run arena plan device ss).2) := Prod.ext h rfl
  obtain ⟨heap, cs, heffect, -, -⟩ := Encoder.run_effect hrun
  have hworks : (Encoder.works ss).filterMap Stage.download? = ss.filterMap Stage.download? := by
    unfold Encoder.works
    rw [List.filterMap_filter]
    refine List.filterMap_congr fun s _ => ?_
    cases s <;> rfl
  rw [heffect.downloads, hworks]

end Engine

end Strata
