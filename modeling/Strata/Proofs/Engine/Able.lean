import Strata.Proofs.Engine.Acts

/-!
# Engines that can go on

An engine is `Able` if its arena is sound, no call among some is made to fail, and no call that waits for a
submission waits for a pipeline. Every deed keeps that. When its session ends, such an engine finishes all that is
pending (`abandonPending_idle`).
-/

namespace Strata

variable {ν α : Type} {spared : List DeviceCall}

namespace Pool

def Request.Spares (spared : List DeviceCall) : Request ν → Prop
  | script faults => ∀ x ∈ faults, x.1 ∉ spared
  | _ => True

theorem Request.spares_nil (r : Request ν) : r.Spares [] := by
  cases r with
  | script faults => exact fun _ _ => List.not_mem_nil
  | allocate | release | acquire | relinquish | invalidate | trim | close | limit => trivial

structure Able (spared : List DeviceCall) (p : Pool ν α) : Prop where
  sound : p.Sound
  faults : ∀ x ∈ p.device.faults, x.1 ∉ spared

namespace Able

variable {p p' : Pool ν α}

theorem destroys (h : p.Able spared) (hs : .destroyBuffer ∈ spared) : p.Destroys := fun _ hr => h.faults _ hr hs

theorem leads (h : p.Able spared) (hl : p.Leads p') : p'.Able spared :=
  ⟨hl.sound, fun x hx => h.faults x (hl.device.faults hx)⟩

theorem setDevice (h : p.Able spared) {device : Device ν α} (hd : p.device.Firm device) :
    Able spared { p with device } :=
  ⟨h.sound.resize hd.size hd.block, fun x hx => h.faults x (hd.faults hx)⟩

variable [Measure ν]

theorem perform (h : p.Able spared) {r : Request ν} (hr : r.Spares spared) : (r.perform p).2.Able spared := by
  refine ⟨(r.perform_spec h.sound).sound, fun x hx => ?_⟩
  cases r with
  | script faults => exact hr x hx
  | allocate | release | acquire | relinquish | invalidate | trim | close | limit =>
    exact h.faults x ((Request.perform_steady h.sound (fun _ => by simp)).faults hx)

theorem uses (h : p.Able spared) (hu : p.Uses p') : p'.Able spared := by
  induction hu with
  | refl => exact h
  | tail _ hu ih =>
    obtain ⟨r, hr, rfl⟩ := hu
    exact ih.perform (by cases r <;> trivial)

theorem uses_steady (h : p.Able spared) (hu : p.Uses p') : p.device.Steady p'.device := by
  induction hu with
  | refl => exact .refl _
  | tail hu hlast ih =>
    obtain ⟨r, hr, rfl⟩ := hlast
    exact ih.trans (Request.perform_steady (h.uses hu).sound fun faults hscript => by
      rw [hscript] at hr
      cases hr)

end Able

end Pool

namespace Engine

structure Able (spared : List DeviceCall) (e : Engine ν α) : Prop where
  pool : e.pool.Able spared
  sorted : e.Sorted

variable {e e' : Engine ν α}

theorem Able.mono {fewer : List DeviceCall} (h : e.Able spared) (hs : fewer ⊆ spared) : e.Able fewer :=
  ⟨⟨h.pool.sound, fun x hx hmem => h.pool.faults x hx (hs hmem)⟩, h.sorted⟩

section
variable [Measure ν]

theorem Chore.able (h : e.Able spared) (hc : e.Chore e') : e'.Able spared := by
  refine ⟨?_, hc.sorted h.sorted⟩
  cases hc with
  | note | schedule | settle | addJob | setJob | addPlan | makeArray | cache => exact h.pool
  | pool pool hu => exact h.pool.uses hu
  | device device hd =>
    exact h.pool.setDevice ⟨hd.buffers ▸ Nat.le_refl _, fun _ _ => by rw [hd.buffers], hd.faults⟩
  | compile key hopen =>
    have hc := e.cache.compile_compiles e.pool.device key
    exact h.pool.setDevice ⟨hc.buffers ▸ Nat.le_refl _, fun _ _ => by rw [hc.buffers], hc.device.faults⟩

theorem finish_able (h : e.Able spared) (token : SubmissionId) : (e.finish token).2.Able spared := by
  unfold finish
  split
  · exact h
  · rename_i handles _
    exact ⟨h.pool.leads (Pool.each_relinquish_spec h.pool.sound handles).1.toLeads, h.sorted⟩

theorem finish_spec (h : e.Able spared) (hs : .destroyBuffer ∈ spared) (token : SubmissionId) :
    (e.finish token).1 = .ok () ∧
      (e.finish token).2.session = { e.session with pending := e.session.pending.filter (·.1 != token) } := by
  unfold finish
  cases hl : e.session.pending.lookup token with
  | none =>
    have hrest : e.session.pending.filter (·.1 != token) = e.session.pending := List.filter_eq_self.mpr fun x hx =>
      bne_iff_ne.mpr (bne_iff_ne.mp (List.lookup_eq_none_iff.mp hl x hx)).symm
    exact ⟨rfl, by rw [hrest]⟩
  | some handles => exact ⟨(Pool.each_relinquish_spec h.pool.sound handles).2 (h.pool.destroys hs), rfl⟩

end

variable [Measure ν] [Channel α] [Stored α] [Transfer α] {R : Pool.Request ν → Prop}

omit [Stored α] [Transfer α] in
theorem Opened.able (h : e.Opened) (hd : ∀ x ∈ e.pool.device.faults, x.1 ∉ spared) : e.Able spared := by
  obtain ⟨device, o, config, rfl⟩ := h.eq
  exact ⟨⟨.start _ device, hd⟩, fun j ⟨b, hb, _⟩ => absurd hb List.not_mem_nil⟩

theorem submit_able (h : e.Able spared) (plan : PlanId) : (e.submit plan).2.Able spared := by
  have hsorted : (e.submit plan).2.Sorted := (Act.submit (R := fun _ => True) e plan).sorted h.sorted
  have hacquire (handles : List Handle) := acquireAll_quiet h.pool.sound [] handles
  refine ⟨?_, hsorted⟩
  rcases e.submit_cases plan with heq | ⟨rec, failure, pool, -, hpool, heq⟩ |
    ⟨rec, pool, device, turns, completion, -, -, hpool, hfirm, heq⟩
  all_goals rw [heq]
  · exact h.pool
  · have hq := hacquire (rec.plan.stages.flatMap Stage.handles)
    rw [hpool] at hq
    exact h.pool.leads hq.toLeads
  · have hq := hacquire (rec.plan.stages.flatMap Stage.handles)
    rw [hpool] at hq
    exact (h.pool.leads hq.toLeads).setDevice hfirm

theorem Act.able (hR : ∀ r, R r → r.Spares spared) (h : e.Able spared) (ha : Act R e e') : e'.Able spared := by
  have hs := ha.sorted h.sorted
  cases ha with
  | chore hc => exact hc.able h
  | submit plan => exact submit_able h plan
  | finish token => exact finish_able h token
  | request r hr => exact ⟨h.pool.perform (hR r hr), hs⟩
  | deliver | fill | addWait | await | tell | collect | discard | forget => exact ⟨h.pool, hs⟩

/-- Only the end of a session changes its phase, and nothing is submitted to one that has ended. -/
theorem Act.session (ha : Act R e e') : e'.session.phase = e.session.phase ∧
    (e.session.phase ≠ .ready → e'.session.pending ⊆ e.session.pending) := by
  cases ha with
  | chore hc => cases hc <;> exact ⟨rfl, fun _ => List.Subset.refl _⟩
  | submit plan =>
    rcases e.submit_cases plan with heq | ⟨rec, failure, pool, -, -, heq⟩ |
      ⟨rec, pool, device, turns, completion, hready, -, -, -, heq⟩
    all_goals rw [heq]
    · exact ⟨rfl, fun _ => List.Subset.refl _⟩
    · exact ⟨rfl, fun _ => List.Subset.refl _⟩
    · exact ⟨rfl, fun hn => absurd hready hn⟩
  | finish token =>
    unfold Engine.finish
    split
    · exact ⟨rfl, fun _ => List.Subset.refl _⟩
    · exact ⟨rfl, fun _ x hx => List.mem_of_mem_filter hx⟩
  | deliver | fill | addWait | await | tell | collect | discard | forget | request =>
    exact ⟨rfl, fun _ => List.Subset.refl _⟩

theorem Acts.able (hR : ∀ r, R r → r.Spares spared) (h : e.Able spared) (ha : Acts R e e') : e'.Able spared := by
  induction ha with
  | refl => exact h
  | tail _ ha ih => exact ha.able hR ih

theorem Acts.session (ha : Acts R e e') : e'.session.phase = e.session.phase ∧
    (e.session.phase ≠ .ready → e'.session.pending ⊆ e.session.pending) := by
  induction ha with
  | refl => exact ⟨rfl, fun _ => List.Subset.refl _⟩
  | tail _ ha ih =>
    obtain ⟨hphase, hp⟩ := ha.session
    exact ⟨hphase.trans ih.1, fun hn => List.Subset.trans (hp (ih.1 ▸ hn)) (ih.2 hn)⟩

theorem Deed.able (hR : ∀ r, R r → r.Spares spared) (h : e.Able spared) (hd : Deed R e e') : e'.Able spared := by
  have hs := hd.sorted h.sorted
  cases hd with
  | act ha => exact ha.able hR h
  | phase | closeCache => exact ⟨h.pool, hs⟩
  | destroyDevice =>
    have hfades := Device.Fades.destroy e.pool.device
    exact ⟨h.pool.setDevice ⟨Nat.le_of_eq hfades.size.symm, fun id _ => by rw [hfades.block id],
      e.pool.device.destroy_steady.faults⟩, hs⟩

theorem Deeds.able (hR : ∀ r, R r → r.Spares spared) (h : e.Able spared) (hd : Deeds R e e') : e'.Able spared := by
  induction hd with
  | refl => exact h
  | tail _ hd ih => exact hd.able hR ih

theorem Deeds.ready (hd : Deeds R e e') (h : e'.session.phase = .ready) : e.session.phase = .ready := by
  induction hd with
  | refl => exact h
  | tail _ hd ih =>
    refine ih ?_
    cases hd with
    | act ha => exact ha.session.1 ▸ h
    | phase phase hphase => exact absurd h hphase
    | closeCache | destroyDevice => exact h

/-! ## Slots and calls only get on -/

omit [Channel α] [Stored α] [Transfer α] in
theorem Chore.later (h : e.Able spared) (hc : e.Chore e') : e.pool.arena.Later e'.pool.arena := by
  cases hc with
  | note | schedule | settle | addJob | setJob | addPlan | makeArray | device | compile | cache => exact .refl _
  | pool pool hu =>
    suffices hall : pool.Sound ∧ e.pool.arena.Later pool.arena from hall.2
    induction hu with
    | refl => exact ⟨h.pool.sound, .refl _⟩
    | tail _ hu ih =>
      obtain ⟨r, -, rfl⟩ := hu
      have hspec := r.perform_spec ih.1
      exact ⟨hspec.sound, ih.2.trans hspec.later⟩

theorem submit_later (h : e.Able spared) (plan : PlanId) : e.pool.arena.Later (e.submit plan).2.pool.arena := by
  have hacquire (handles : List Handle) := (acquireAll_quiet h.pool.sound [] handles).toLeads.later
  rcases e.submit_cases plan with heq | ⟨rec, failure, pool, -, hpool, heq⟩ |
    ⟨rec, pool, device, turns, completion, -, -, hpool, -, heq⟩
  all_goals rw [heq]
  · exact .refl _
  all_goals
    have hlater := hacquire (rec.plan.stages.flatMap Stage.handles)
    rw [hpool] at hlater
    exact hlater

theorem submit_contains (h : e.Able spared) (plan : PlanId) :
    (e.submit plan).2.pool.arena.contains = e.pool.arena.contains := by
  have hacquire (handles : List Handle) := (acquireAll_quiet h.pool.sound [] handles).contains
  rcases e.submit_cases plan with heq | ⟨rec, failure, pool, -, hpool, heq⟩ |
    ⟨rec, pool, device, turns, completion, -, -, hpool, -, heq⟩
  all_goals rw [heq]
  all_goals
    have hcontains := hacquire (rec.plan.stages.flatMap Stage.handles)
    rw [hpool] at hcontains
    exact hcontains

omit [Channel α] [Stored α] [Transfer α] in
theorem finish_later (h : e.Able spared) (token : SubmissionId) :
    e.pool.arena.Later (e.finish token).2.pool.arena := by
  unfold finish
  split
  · exact .refl _
  · rename_i handles _
    exact (Pool.each_relinquish_spec h.pool.sound handles).1.later

theorem Deed.later (h : e.Able spared) (hd : Deed R e e') : e.pool.arena.Later e'.pool.arena := by
  cases hd with
  | act ha =>
    cases ha with
    | chore hc => exact hc.later h
    | submit plan => exact submit_later h plan
    | finish token => exact finish_later h token
    | request r hr => exact (r.perform_spec h.pool.sound).later
    | deliver | fill | addWait | await | tell | collect | discard | forget => exact .refl _
  | phase | closeCache | destroyDevice => exact .refl _

theorem Deeds.later (hR : ∀ r, R r → r.Spares spared) (h : e.Able spared) (hd : Deeds R e e') :
    e.pool.arena.Later e'.pool.arena := by
  induction hd with
  | refl => exact .refl _
  | tail hd hlast ih => exact ih.trans (hlast.later (Deeds.able hR h hd))

theorem Deed.jobs (hd : Deed R e e') : e.jobs.size ≤ e'.jobs.size := by
  cases hd with
  | act ha =>
    cases ha with
    | chore hc =>
      cases hc with
      | addJob job => exact Array.size_push .. ▸ Nat.le_succ _
      | setJob j job => exact Nat.le_of_eq (Array.size_setIfInBounds ..).symm
      | note | schedule | settle | addPlan | makeArray | pool | device | compile | cache => exact Nat.le_refl _
    | submit plan => exact Nat.le_of_eq (congrArg Array.size (e.submit_kept plan).1.symm)
    | finish token => exact Nat.le_of_eq (congrArg Array.size (e.finish_kept token).1.symm)
    | addWait => exact Array.size_push .. ▸ Nat.le_succ _
    | deliver | fill | await | tell | collect | discard | forget | request => exact Nat.le_refl _
  | phase | closeCache | destroyDevice => exact Nat.le_refl _

theorem Deeds.jobs (hd : Deeds R e e') : e.jobs.size ≤ e'.jobs.size := by
  induction hd with
  | refl => exact Nat.le_refl _
  | tail _ hlast ih => exact Nat.le_trans ih hlast.jobs

/-! ## What is pending when a session ends -/

omit [Measure ν] [Channel α] [Stored α] [Transfer α] in
theorem wake_session (e : Engine ν α) (token : SubmissionId) (woken : List (JobId × Outcome)) :
    (e.wake token woken).session = e.session := by
  unfold wake
  induction woken generalizing e with
  | nil => rfl
  | cons x woken ih => exact ih _

theorem abandonPending_idle (h : e.Able spared) (hs : .destroyBuffer ∈ spared) (failure : Failure) :
    (e.abandonPending failure).1 = .ok () ∧ (e.abandonPending failure).2.session.pending = [] := by
  have hall (tokens : List SubmissionId) (e : Engine ν α) (h : e.Able spared) :
      let r := Attempt.each (fun (e : Engine ν α) token => (e.finish token).andThen fun _ e =>
        (.ok (), { e with completion := (e.completion.abandon token failure).2 }.wake token
          (e.completion.abandon token failure).1)) e tokens
      r.1 = .ok () ∧ r.2.session.pending = e.session.pending.filter (·.1 ∉ tokens) := by
    induction tokens generalizing e with
    | nil => exact ⟨rfl, (List.filter_eq_self.mpr fun x _ => by simp).symm⟩
    | cons token tokens ih =>
      obtain ⟨hok, hp⟩ := finish_spec h hs token
      have hable := finish_able h token
      unfold Attempt.each
      unfold Attempt.andThen at ih ⊢
      generalize e.finish token = r at hok hable hp
      obtain ⟨r, e'⟩ := r
      cases hok
      have hwake : Acts (fun _ => False) e' ({ e' with
          completion := (e'.completion.abandon token failure).2 }.wake token
            (e'.completion.abandon token failure).1) :=
        (Act.tell e' token _).acts.trans (wake_acts _ token _)
      obtain ⟨hok', hp'⟩ := ih _ (hwake.able (fun _ => False.elim) hable)
      refine ⟨hok', hp'.trans ?_⟩
      rw [wake_session]
      show e'.session.pending.filter _ = _
      rw [show e'.session = _ from hp, List.filter_filter]
      refine List.filter_congr fun x _ => ?_
      rw [Bool.eq_iff_iff]
      simp [and_comm]
  obtain ⟨hok, hp⟩ := hall (e.session.pending.map (·.1)) e h
  refine ⟨hok, hp.trans (List.filter_eq_nil_iff.mpr fun x hx => ?_)⟩
  simpa using ⟨x.2, hx⟩

end Engine

end Strata
