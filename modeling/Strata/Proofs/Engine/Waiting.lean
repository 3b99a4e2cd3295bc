import Strata.Proofs.Engine.Changes
import Strata.Proofs.Engine.Chores
import Strata.Proofs.Engine.Pipelines

/-!
# Outcomes keep every promise

An outcome that is kept, delivered or made up on the way is one that was reported, or a failure. The end
of a session settles what is pending with failures, and nothing is submitted after it.
-/

namespace Strata

/-! ## Outcomes that are kept -/

namespace Completion

variable {W : Type}

theorem outcomes_watch (c : Completion W) (id : SubmissionId) : (c.watch id).outcomes ⊆ c.outcomes := by
  intro x hx
  cases c with
  | reactor r =>
    unfold watch Reactor.watch at hx
    dsimp only at hx
    split at hx
    · exact hx
    · exact hx
  | deferrals d =>
    obtain ⟨y, hy, hxy⟩ := List.mem_filterMap.mp hx
    rcases List.mem_append.mp hy with hy | hy
    · exact List.mem_filterMap.mpr ⟨y, (List.mem_filter.mp hy).1, hxy⟩
    · rw [List.mem_singleton.mp hy] at hxy
      cases hxy

theorem mem_put {d : Deferrals W} {id : SubmissionId} {entry : Deferral W} {x : SubmissionId × Outcome}
    (h : x ∈ (Completion.deferrals (d.put id entry)).outcomes) :
    x ∈ (Completion.deferrals d).outcomes ∨ entry.outcome = some x.2 ∧ x.1 = id := by
  obtain ⟨y, hy, hxy⟩ := List.mem_filterMap.mp h
  rcases List.mem_append.mp hy with hy | hy
  · exact .inl (List.mem_filterMap.mpr ⟨y, (List.mem_filter.mp hy).1, hxy⟩)
  · rw [List.mem_singleton.mp hy] at hxy
    obtain ⟨o, ho, rfl⟩ := Option.map_eq_some_iff.mp hxy
    exact .inr ⟨ho, rfl⟩

theorem outcomes_settle (c : Completion W) (id : SubmissionId) (outcome : Outcome) :
    (∀ x ∈ (c.settle id outcome).2.outcomes, x ∈ c.outcomes ∨ x = (id, outcome)) ∧
      ∀ x ∈ (c.settle id outcome).1, x.2 = outcome := by
  cases c with
  | reactor r =>
    unfold settle Reactor.settle
    dsimp only
    split
    · split
      · refine ⟨fun x hx => ?_, fun x hx => absurd hx List.not_mem_nil⟩
        rcases List.mem_append.mp hx with hx | hx
        · exact .inl (List.mem_filter.mp hx).1
        · exact .inr (List.mem_singleton.mp hx)
      · refine ⟨fun x hx => .inl hx, fun x hx => ?_⟩
        obtain ⟨y, -, rfl⟩ := List.mem_map.mp hx
        rfl
    · exact ⟨fun x hx => .inl hx, fun x hx => absurd hx List.not_mem_nil⟩
  | deferrals d =>
    unfold settle Deferrals.settle
    dsimp only
    split
    · refine ⟨fun x hx => ?_, fun x hx => ?_⟩
      · rcases mem_put hx with hx | ⟨ho, hid⟩
        · exact .inl hx
        · rw [← hid, Option.some.inj ho]
          exact .inr rfl
      · obtain ⟨y, -, rfl⟩ := List.mem_map.mp hx
        rfl
    · exact ⟨fun x hx => .inl hx, fun x hx => absurd hx List.not_mem_nil⟩

/-- A wait is answered with an outcome that was kept, or with a failure. -/
theorem outcomes_wait (c : Completion W) (id : SubmissionId) (w : W) :
    (c.wait id w).2.outcomes ⊆ c.outcomes ∧
      ∀ outcome, (c.wait id w).1 = .now outcome ∨ (c.wait id w).1 = .later outcome →
        (id, outcome) ∈ c.outcomes ∨ ∃ failure, outcome = .error failure := by
  cases c with
  | reactor r =>
    unfold wait Reactor.wait
    dsimp only
    split
    · rename_i o ho
      refine ⟨fun x hx => (List.mem_filter.mp hx).1, fun outcome h => .inl ?_⟩
      obtain ⟨l₁, l₂, hl, -⟩ := List.lookup_eq_some_iff.mp ho
      rcases h with h | h
      · cases h
        show _ ∈ r.retained
        rw [hl]
        exact List.mem_append_right _ (List.mem_cons_self ..)
      · cases h
    · split
      · refine ⟨fun x hx => hx, fun outcome h => ?_⟩
        rcases h with h | h
        · cases h
        · cases h
      · refine ⟨fun x hx => hx, fun outcome h => ?_⟩
        rcases h with h | h
        · cases h
          exact .inr ⟨_, rfl⟩
        · cases h
  -- outcomes are handed out later here, so they are kept until then
  | deferrals d =>
    unfold wait Deferrals.wait
    dsimp only
    split
    · refine ⟨fun x hx => hx, fun outcome h => ?_⟩
      rcases h with h | h
      · cases h
        exact .inr ⟨_, rfl⟩
      · cases h
    · rename_i o ws hd
      refine ⟨fun x hx => hx, fun outcome h => ?_⟩
      rcases h with h | h
      · cases h
      · cases h
        obtain ⟨l₁, l₂, hl, -⟩ := List.lookup_eq_some_iff.mp hd
        refine .inl (List.mem_filterMap.mpr ⟨(id, ⟨some o, ws⟩), ?_, rfl⟩)
        rw [hl]
        exact List.mem_append_right _ (List.mem_cons_self ..)
    · refine ⟨fun x hx => ?_, fun outcome h => ?_⟩
      · rcases mem_put hx with hx | ⟨ho, -⟩
        · exact hx
        · cases ho
      · rcases h with h | h
        · cases h
        · cases h

theorem outcomes_collect (c : Completion W) (id : SubmissionId) : (c.collect id).outcomes ⊆ c.outcomes := by
  intro x hx
  cases c with
  | reactor r => exact hx
  | deferrals d =>
    obtain ⟨y, hy, hxy⟩ := List.mem_filterMap.mp hx
    exact List.mem_filterMap.mpr ⟨y, (List.mem_filter.mp hy).1, hxy⟩

theorem outcomes_discard (c : Completion W) (id : SubmissionId) :
    (∀ x ∈ (c.discard id).2.outcomes, x ∈ c.outcomes ∨ ∃ failure, x.2 = .error failure) ∧
      ∀ x ∈ (c.discard id).1, ∃ failure, x.2 = .error failure := by
  obtain ⟨hkept, hwoken⟩ := c.outcomes_settle id (.error (discardedSubmission id))
  unfold discard
  generalize c.settle id (.error (discardedSubmission id)) = r at hkept hwoken
  obtain ⟨woken, c'⟩ := r
  have hsub : ∀ x, x ∈ (c'.collect id).outcomes ∨ x ∈ c'.outcomes → x ∈ c.outcomes ∨ ∃ failure,
      x.2 = .error failure := by
    intro x hx
    have hx : x ∈ c'.outcomes := hx.elim (fun h => c'.outcomes_collect _ h) fun h => h
    rcases hkept x hx with hx | rfl
    · exact .inl hx
    · exact .inr ⟨_, rfl⟩
  refine ⟨fun x hx => ?_, fun x hx => ?_⟩
  · cases c' with
    | reactor r => exact hsub x (.inr (List.mem_filter.mp hx).1)
    | deferrals d => exact hsub x (.inl hx)
  · cases c' with
    | reactor r => exact ⟨_, hwoken x hx⟩
    | deferrals d => exact ⟨_, hwoken x hx⟩

/-! ## Submissions that are known -/

theorem ids_put {d : Deferrals W} {id : SubmissionId} (hid : id ∈ (Completion.deferrals d).ids)
    (entry : Deferral W) : (Completion.deferrals (d.put id entry)).ids ⊆ (Completion.deferrals d).ids := by
  intro x hx
  obtain ⟨y, hy, rfl⟩ := List.mem_map.mp hx
  rcases List.mem_append.mp hy with hy | hy
  · exact List.mem_map_of_mem (List.mem_filter.mp hy).1
  · rw [List.mem_singleton.mp hy]
    exact hid

theorem ids_drop (d : Deferrals W) (id : SubmissionId) :
    (Completion.deferrals (d.drop id)).ids ⊆ (Completion.deferrals d).ids :=
  List.map_subset _ (List.filter_subset_self _)

theorem mem_ids_of_lookup {d : Deferrals W} {id : SubmissionId} {entry : Deferral W}
    (h : d.entries.lookup id = some entry) : id ∈ (Completion.deferrals d).ids := by
  obtain ⟨l₁, l₂, hl, -⟩ := List.lookup_eq_some_iff.mp h
  show id ∈ d.entries.map (·.1)
  rw [hl]
  simp

theorem ids_watch (c : Completion W) {id x : SubmissionId} (hx : x ∈ (c.watch id).ids) : x ∈ c.ids ∨ x = id := by
  cases c with
  | reactor r =>
    unfold watch Reactor.watch at hx
    dsimp only at hx
    split at hx
    · exact .inl hx
    · simp only [ids, List.mem_append, List.mem_singleton] at hx ⊢
      rcases hx with ((hx | hx) | hx) | hx
      · exact .inl (.inl (.inl hx))
      · exact .inr hx
      · exact .inl (.inl (.inr hx))
      · exact .inl (.inr hx)
  | deferrals d =>
    obtain ⟨y, hy, rfl⟩ := List.mem_map.mp hx
    rcases List.mem_append.mp hy with hy | hy
    · exact .inl (List.mem_map_of_mem (List.mem_filter.mp hy).1)
    · exact .inr (by rw [List.mem_singleton.mp hy])

theorem ids_settle (c : Completion W) (id : SubmissionId) (outcome : Outcome) :
    (c.settle id outcome).2.ids ⊆ c.ids := by
  cases c with
  | reactor r =>
    unfold settle Reactor.settle
    dsimp only
    split
    · rename_i hid
      have herase : r.inFlight.erase id ⊆ r.inFlight := List.erase_subset
      intro x hx
      split at hx
      · simp only [ids, List.map_append, List.mem_append, List.map_cons, List.map_nil, List.mem_singleton] at hx ⊢
        rcases hx with (hx | hx | rfl) | hx
        · exact .inl (.inl (herase hx))
        · exact .inl (.inr (List.map_subset _ (List.filter_subset_self _) hx))
        · exact .inl (.inl hid)
        · exact .inr hx
      · simp only [ids, List.mem_append] at hx ⊢
        rcases hx with (hx | hx) | hx
        · exact .inl (.inl (herase hx))
        · exact .inl (.inr hx)
        · exact .inr (List.map_subset _ (List.filter_subset_self _) hx)
    · exact List.Subset.refl _
  | deferrals d =>
    unfold settle Deferrals.settle
    dsimp only
    split
    · rename_i waiters hd
      exact ids_put (mem_ids_of_lookup hd) _
    · exact List.Subset.refl _

theorem ids_wait (c : Completion W) (id : SubmissionId) (w : W) : (c.wait id w).2.ids ⊆ c.ids := by
  cases c with
  | reactor r =>
    unfold wait Reactor.wait
    dsimp only
    intro x hx
    split at hx
    · simp only [ids, List.mem_append] at hx ⊢
      exact hx.imp_left (Or.imp_right fun h => List.map_subset _ (List.filter_subset_self _) h)
    · split at hx
      · rename_i hid
        simp only [ids, List.map_append, List.mem_append, List.map_cons, List.map_nil, List.mem_singleton] at hx ⊢
        rcases hx with hx | hx | rfl
        · exact .inl hx
        · exact .inr hx
        · exact .inl (.inl hid)
      · exact hx
  | deferrals d =>
    unfold wait Deferrals.wait
    dsimp only
    split
    · exact List.Subset.refl _
    · exact List.Subset.refl _
    · rename_i waiters hd
      exact ids_put (mem_ids_of_lookup hd) _

theorem ids_collect (c : Completion W) (id : SubmissionId) : (c.collect id).ids ⊆ c.ids := by
  cases c with
  | reactor r => exact List.Subset.refl _
  | deferrals d => exact ids_drop d id

theorem ids_discard (c : Completion W) (id : SubmissionId) : (c.discard id).2.ids ⊆ c.ids := by
  have hsettle := c.ids_settle id (.error (discardedSubmission id))
  unfold discard
  generalize c.settle id (.error (discardedSubmission id)) = r at hsettle
  obtain ⟨woken, c'⟩ := r
  cases c' with
  | reactor r =>
    refine List.Subset.trans ?_ hsettle
    intro x hx
    simp only [ids, List.mem_append] at hx ⊢
    exact hx.imp_left (Or.imp_right fun h => List.map_subset _ (List.filter_subset_self _) h)
  | deferrals d => exact List.Subset.trans (ids_drop d id) hsettle

end Completion

variable {α : Type} {G : Ledger α} {e : Engine Int α}

theorem Outcome.notes_error {token : SubmissionId} {outcome : Outcome} {failure : Failure}
    (h : outcome = .error failure) {n : Note α} : n ∉ Outcome.notes token outcome := by
  rw [h]
  exact List.not_mem_nil

namespace Engine

variable [Channel α] [Stored α] [Transfer α]

theorem setCompletion_proceeds (hs : e.Safe G) {completion : Completion JobId}
    (hids : completion.ids ⊆ e.completion.ids)
    (ho : ∀ x ∈ completion.outcomes, x ∈ e.completion.outcomes ∨ ∀ n ∈ Outcome.notes x.1 x.2, e.Holds G n) :
    e.Proceeds G { e with completion } := by
  refine .same_of_ids hs rfl rfl rfl rfl rfl rfl rfl hids fun n hn => ?_
  rcases mem_notes.mp hn with hn | hn | hn | ⟨x, hx, hn⟩ | hn
  · exact .inl (mem_notes.mpr (.inl hn))
  · exact .inl (mem_notes.mpr (.inr (.inl hn)))
  · exact .inl (mem_notes.mpr (.inr (.inr (.inl hn))))
  · rcases ho x hx with hx | hx
    · exact .inl (mem_notes.mpr (.inr (.inr (.inr (.inl ⟨x, hx, hn⟩)))))
    · exact .inr (hx n hn)
  · exact .inl (mem_notes.mpr (.inr (.inr (.inr (.inr hn)))))

/-! ## Delivery -/

theorem wake_proceeds (hs : e.Safe G) {token : SubmissionId} {woken : List (JobId × Outcome)}
    (hw : ∀ x ∈ woken, ∀ n ∈ Outcome.notes token x.2, e.Holds G n) : e.Proceeds G (e.wake token woken) := by
  unfold wake
  induction woken generalizing e with
  | nil => exact .refl hs
  | cons x rest ih =>
    have hx := schedule_proceeds hs e.completion.wakeTurns (t := .collected x.1 token x.2)
        (hw x (List.mem_cons_self ..))
    exact hx.trans (ih hx.safe fun y hy n hn => hx.keeps n (hw y (List.mem_cons_of_mem _ hy) n hn))

theorem reported_proceeds (hs : e.Safe G) {token : SubmissionId} {outcome : Outcome}
    (hn : ∀ n ∈ Outcome.notes token outcome, e.Holds G n) : e.Proceeds G (e.reported token outcome) := by
  have hn' (n : Note α) (h : n ∈ Outcome.notes token (outcome.mapError Failure.asError)) : e.Holds G n := by
    cases outcome with
    | ok u => exact hn n h
    | error failure => exact absurd h List.not_mem_nil
  obtain ⟨hkept, hwoken⟩ := e.completion.outcomes_settle token (outcome.mapError Failure.asError)
  have hids := e.completion.ids_settle token (outcome.mapError Failure.asError)
  unfold reported
  generalize e.completion.settle token (outcome.mapError Failure.asError) = r at hkept hwoken hids
  obtain ⟨woken, completion⟩ := r
  have hset := setCompletion_proceeds hs hids fun x hx => by
    rcases hkept x hx with hx | rfl
    · exact .inl hx
    · exact .inr hn'
  refine hset.trans (wake_proceeds hset.safe fun x hx n h => hset.keeps n (hn' n ?_))
  rw [← hwoken x hx]
  exact h

theorem pass_proceeds (hs : e.Safe G) {job : JobId} {token : SubmissionId} {outcome : Outcome}
    (hn : ∀ n ∈ Outcome.notes token outcome, e.Holds G n) : e.Proceeds G (e.pass job token outcome) := by
  unfold pass
  split
  · refine settle_proceeds hs job fun n h => ?_
    cases outcome with
    | ok u => exact absurd h List.not_mem_nil
    | error failure => exact absurd h List.not_mem_nil
  · rename_i c _
    cases c.signal with
    | none => exact schedule_proceeds hs 2 hn
    | some signal => exact schedule_proceeds hs 2 hn
  · exact .refl hs

theorem collected_proceeds (hs : e.Safe G) {job : JobId} {token : SubmissionId} {outcome : Outcome}
    (hn : ∀ n ∈ Outcome.notes token outcome, e.Holds G n) : e.Proceeds G (e.collected job token outcome) := by
  have hset := setCompletion_proceeds hs (e.completion.ids_collect token) fun x hx =>
    .inl (e.completion.outcomes_collect token hx)
  exact hset.trans (pass_proceeds hset.safe fun n h => hset.keeps n (hn n h))

theorem waitFor_proceeds (hs : e.Safe G) (hn : ∀ n ∈ e.notes, e.Holds G n) (job : JobId) (token : SubmissionId) :
    e.Proceeds G (e.waitFor job token) := by
  unfold waitFor
  split
  · exact pass_proceeds hs fun n h => absurd h List.not_mem_nil
  · split
    · exact pass_proceeds hs fun n h => absurd h List.not_mem_nil
    · have hsession : e.Proceeds G
          { e with session := { e.session with unawaited := e.session.unawaited.erase token } } :=
        .same hs rfl rfl rfl rfl rfl rfl rfl rfl fun n h => .inl h
      obtain ⟨hkept, hreply⟩ := e.completion.outcomes_wait token job
      have hids := e.completion.ids_wait token job
      dsimp only
      generalize e.completion.wait token job = r at hkept hreply hids
      obtain ⟨reply, completion⟩ := r
      have hset := setCompletion_proceeds hsession.safe hids fun x hx => .inl (hkept hx)
      have hall := hsession.trans hset
      have houtcome (outcome : Outcome) (h : reply = .now outcome ∨ reply = .later outcome) (n : Note α)
          (hm : n ∈ Outcome.notes token outcome) : Holds G { e with
            session := { e.session with unawaited := e.session.unawaited.erase token }, completion } n := by
        rcases hreply outcome h with hx | ⟨failure, hf⟩
        · exact hall.keeps n (hn n (mem_notes.mpr (.inr (.inr (.inr (.inl ⟨_, hx, hm⟩))))))
        · exact absurd hm (Outcome.notes_error hf)
      cases reply with
      | now outcome => exact hall.trans (pass_proceeds hall.safe (houtcome outcome (.inl rfl)))
      | later outcome => exact hall.trans (schedule_proceeds hall.safe 1 (houtcome outcome (.inr rfl)))
      | suspended => exact hall

theorem startWait_proceeds (hs : e.Safe G) (hn : ∀ n ∈ e.notes, e.Holds G n) (token : SubmissionId) :
    e.Proceeds G (e.startWait token).2 := by
  have hadd := @addJob_proceeds _ _ _ _ _ _ hs .wait (fun _ h => by cases h) fun _ h => by cases h
  exact hadd.trans (waitFor_proceeds hadd.safe (fun n h => hadd.keeps n (hn n h)) _ token)

/-! ## The end of a submission -/

theorem finish_proceeds (hs : e.Safe G) (token : SubmissionId) : e.Proceeds G (e.finish token).2 := by
  unfold finish
  split
  · exact .refl hs
  · rename_i handles _
    have hq := (Pool.each_relinquish_spec hs.sound handles).1
    have hset := setPool_proceeds hs hq.toLeads fun k hk => hq.contains ▸ hk
    exact hset.trans (.same hset.safe rfl rfl rfl rfl rfl rfl rfl rfl fun n h => .inl h)

theorem finished_proceeds (hs : e.Safe G) {token : SubmissionId} {outcome : Outcome}
    (hn : ∀ n ∈ Outcome.notes token outcome, e.Holds G n) : e.Proceeds G (e.finished token outcome) := by
  have hfinish := finish_proceeds hs token
  unfold finished
  generalize e.finish token = r at hfinish
  obtain ⟨r, e'⟩ := r
  cases r with
  | ok u => exact hfinish.trans (schedule_proceeds hfinish.safe 3 fun n h => hfinish.keeps n (hn n h))
  | error failure => exact hfinish.trans (schedule_proceeds hfinish.safe 1 fun n h => absurd h List.not_mem_nil)

/-! ## The end of the session -/

theorem wakeFailed_proceeds (hs : e.Safe G) {completion : Completion JobId} {woken : List (JobId × Outcome)}
    {token : SubmissionId} (hids : completion.ids ⊆ e.completion.ids)
    (hkept : ∀ x ∈ completion.outcomes, x ∈ e.completion.outcomes ∨ ∃ failure, x.2 = .error failure)
    (hwoken : ∀ x ∈ woken, ∃ failure, x.2 = .error failure) :
    e.Proceeds G (({ e with completion } : Engine Int α).wake token woken) := by
  have hset := setCompletion_proceeds hs hids fun x hx => by
    rcases hkept x hx with hx | ⟨failure, hf⟩
    · exact .inl hx
    · exact .inr fun n h => absurd h (Outcome.notes_error hf)
  refine hset.trans (wake_proceeds hset.safe fun x hx n h => ?_)
  obtain ⟨failure, hf⟩ := hwoken x hx
  exact absurd h (Outcome.notes_error hf)

theorem abandonPending_proceeds (hs : e.Safe G) (failure : Failure) :
    e.Proceeds G (e.abandonPending failure).2 := by
  unfold abandonPending
  generalize e.session.pending.map (·.1) = tokens
  induction tokens generalizing e with
  | nil => exact .refl hs
  | cons token rest ih =>
    have hfinish := finish_proceeds hs token
    unfold Attempt.each
    generalize e.finish token = r at hfinish
    obtain ⟨r, e'⟩ := r
    cases r with
    | error f => exact hfinish
    | ok u =>
      obtain ⟨hkept, hwoken⟩ := e'.completion.outcomes_settle token (.error failure)
      have hids := e'.completion.ids_settle token (.error failure)
      dsimp only [Attempt.andThen]
      unfold Completion.abandon
      generalize e'.completion.settle token (.error failure) = r at hkept hwoken hids
      obtain ⟨woken, completion⟩ := r
      have hwake := @wakeFailed_proceeds _ _ _ _ _ _ hfinish.safe _ _ token hids
        (fun x hx => (hkept x hx).imp_right fun h => ⟨failure, congrArg Prod.snd h⟩) fun x hx =>
          ⟨failure, hwoken x hx⟩
      exact (hfinish.trans hwake).trans (ih hwake.safe)

theorem discardUnawaited_proceeds (hs : e.Safe G) : e.Proceeds G e.discardUnawaited := by
  unfold discardUnawaited
  generalize e.session.unawaited = tokens
  have hfold : e.Proceeds G (tokens.foldl (fun e token =>
      ({ e with completion := (e.completion.discard token).2 } : Engine Int α).wake token
        (e.completion.discard token).1) e) := by
    induction tokens generalizing e with
    | nil => exact .refl hs
    | cons token rest ih =>
      obtain ⟨hkept, hwoken⟩ := e.completion.outcomes_discard token
      have hwake := @wakeFailed_proceeds _ _ _ _ _ _ hs _ _ token (e.completion.ids_discard token) hkept hwoken
      exact hwake.trans (ih hwake.safe)
  exact hfold.trans (.same hfold.safe rfl rfl rfl rfl rfl rfl rfl rfl fun n h => .inl h)

/-- Shutting down is the end of every slot, but not of what buffers hold. -/
theorem shutDown_proceeds (hs : e.Safe G) (hr : e.session.phase ≠ .ready) (closing : Closing) :
    e.Proceeds G (e.shutDown closing).2 := by
  have hlost {pool : Pool Int α} (hl : e.pool.Leads pool) : e.Proceeds G { e with pool } :=
    Change.proceeds hs (.parts hs pool e.cache hl.sound hl.blocks hl.later (fun h => absurd h hr)
      hs.right (.refl _) rfl
      rfl rfl rfl (Nat.le_refl _) (.inl rfl) id (List.Subset.refl _)) fun n h => .inl h
  have hclose := hlost (Pool.close_spec hs.sound closing).1
  unfold shutDown
  generalize e.pool.close closing = r at hclose
  obtain ⟨r, pool⟩ := r
  cases r with
  | error failure => exact hclose
  | ok u =>
    have hpipes := closePipelines_proceeds hclose.safe closing
    have hall := hclose.trans hpipes
    dsimp only [Attempt.lift, Attempt.andThen]
    generalize closePipelines { e with pool } closing = e' at hpipes hall
    have hr' : e'.session.phase ≠ .ready := fun h => hr (hall.ready h)
    have hext := (Device.Fades.destroy e'.pool.device).toExtends
    generalize e'.pool.device.destroy = r at hext
    obtain ⟨r, device⟩ := r
    refine hall.trans (Change.proceeds hall.safe (.parts hall.safe { e'.pool with device } e'.cache
      (hall.safe.sound.resize hext.1 fun id h => by rw [hext.2 id h]) hext (.refl _) (fun h => absurd h hr')
      hall.safe.right (.refl _) rfl rfl rfl rfl (Nat.le_refl _) (.inl rfl) id
      (List.Subset.refl _)) fun n h => .inl h)

theorem setPhase_proceeds (hs : e.Safe G) {phase : Phase} (hp : phase ≠ .ready) :
    e.Proceeds G { e with session := { e.session with phase } } :=
  Change.proceeds hs (.parts hs e.pool e.cache hs.sound (.refl _) (.refl _)
    (fun h => absurd h hp) hs.right (.refl _) rfl
    rfl rfl rfl (Nat.le_refl _) (.inl rfl) (fun h => absurd h hp) (List.Subset.refl _)) fun _ h => .inl h

theorem destroy_proceeds (hs : e.Safe G) : e.Proceeds G e.destroy.2 := by
  unfold destroy
  split
  · exact .refl hs
  · have hphase := @setPhase_proceeds _ _ _ _ _ _ hs .destroyed (by decide)
    have hpending := abandonPending_proceeds hphase.safe (.of (.sessionDestroyed .deviceLost))
    have hall := hphase.trans hpending
    dsimp only
    generalize abandonPending (ν := Int) _ _ = r at hpending hall
    obtain ⟨r, e'⟩ := r
    cases r with
    | error failure => exact hall
    | ok u =>
      have hdiscard := discardUnawaited_proceeds hpending.safe
      exact (hall.trans hdiscard).trans (shutDown_proceeds hdiscard.safe
        (fun h => nomatch hpending.ready (hdiscard.ready h)) _)

theorem lossSeen_proceeds (hs : e.Safe G) (reason message : String) : e.Proceeds G (e.lossSeen reason message) := by
  unfold lossSeen
  split
  · exact .refl hs
  · have hreport := report_proceeds hs (.deviceLost reason message)
    have hphase := @setPhase_proceeds _ _ _ _ _ _ hreport.safe .lost (by decide)
    have hpending := abandonPending_proceeds hphase.safe (.of (Complaint.deviceLostBecause reason message))
    have hall := (hreport.trans hphase).trans hpending
    dsimp only
    generalize abandonPending (ν := Int) _ _ = r at hpending hall
    obtain ⟨r, e'⟩ := r
    cases r with
    | error failure => exact hall
    | ok u =>
      exact hall.trans (shutDown_proceeds hpending.safe (fun h => nomatch hpending.ready h) _)

end Engine

end Strata
