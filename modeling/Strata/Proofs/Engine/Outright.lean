import Strata.Proofs.Engine.Rechecks
import Strata.Proofs.Engine.Works
import Strata.Proofs.Memory.Classes

/-!
# Plans are made outright or not at all

Whatever of a stack, its uploads and its modes is found at fault is found before anything is asked for. Once the
pipelines are there, slots are allocated one by one, each with a stage of its own; if one of them cannot be had,
those before it are released again (`Draft.emit_undone`), and whoever looks at the arena cannot tell that they were
there.
-/

namespace Strata

variable {ν α : Type}

namespace Draft

variable [Measure ν] {draft : Draft ν α} {pipelines : List Pipeline} {pool pool' : Pool ν α} {plan : Plan ν α}

theorem releaseLive_tallies (p : Pool ν α) (handles : List Handle) :
    p.arena.Tallies (p.releaseLive handles).2.arena := by
  refine Attempt.each_keeps (P := fun p' : Pool ν α => p.arena.Tallies p'.arena) (fun p' hp' k _ => ?_) (.refl _)
  unfold Pool.releaseIfLive
  split
  · exact hp'.trans (p'.release_tallies k)
  · exact hp'

variable [Channel α] [Stored α]

/-- No slot that is referred to is touched as stages are laid out. -/
theorem layOut_tallies (hs : pool.Sound) (width height : ν) : pool.arena.Tallies
    (Emission.layOut draft pipelines width height ⟨pool, [], []⟩).2.pool.arena := by
  refine (Emission.layOut_keeps (P := fun p : Pool ν α => p.Sound ∧ pool.arena.Tallies p.arena)
    (fun p purpose hp => ⟨Pool.allocate_sound hp.1 _ _, hp.2.trans (Pool.allocate_tallies hp.1 _ _)⟩)
      draft pipelines
    ⟨hs, .refl _⟩).2

/-- An attempt that fails leaves the same slots live, with what they hold, and every count of references. -/
structure Undone (a a' : Arena ν) : Prop where
  live : a'.contains = a.contains
  resolve : ∀ h ref, a'.resolve h = .ok ref ↔ a.resolve h = .ok ref
  refs : ∀ i, (a'.slotAt i).refs = (a.slotAt i).refs

omit [Measure ν] [Channel α] [Stored α] in
theorem Undone.refl (a : Arena ν) : Undone a a := ⟨rfl, fun _ _ => Iff.rfl, fun _ => rfl⟩

omit [Measure ν] [Channel α] [Stored α] in
theorem Undone.of_leads (hs : pool.Sound) (hl : pool.Leads pool')
    (hlive : ∀ k, pool'.arena.contains k = true ↔ pool.arena.contains k = true)
    (ht : pool.arena.Tallies pool'.arena) : Undone pool.arena pool'.arena := by
  refine ⟨funext fun k => Bool.eq_iff_iff.mpr (hlive k), fun h ref => ⟨fun hr => ?_, fun hr => ?_⟩, fun i => ?_⟩
  · obtain ⟨ref', hr'⟩ := hs.resolve_of_contains ((hlive h).mp (Arena.contains_of_resolve hr))
    have hsame := Arena.resolve_later hl.later hr' (Arena.contains_of_resolve hr)
    rw [hr] at hsame
    cases hsame
    exact hr'
  · exact Arena.resolve_later hl.later hr ((hlive h).mpr (Arena.contains_of_resolve hr))
  · rcases ht i with ⟨-, hrefs⟩ | ⟨-, hnone, hrefs⟩
    · exact hrefs
    · exact hnone.trans hrefs.symm

theorem emit_undone (hs : pool.Sound) (hd : pool.Destroys) {failure : Failure}
    (h : draft.emit pipelines pool = (.error failure, pool')) : Undone pool.arena pool'.arena := by
  obtain ⟨hleads, hkept⟩ := emit_fails hs h
  refine .of_leads hs hleads (fun k => ⟨emit_fails_contains hs hd h, hkept k⟩) ?_
  unfold emit at h
  split at h
  · cases h
    exact .refl _
  · rename_i canvas _
    have hlaid := @layOut_tallies _ _ _ draft pipelines pool _ _ hs canvas.width canvas.height
    split at h
    · cases h
    · rename_i e heq
      rw [heq] at hlaid
      have hpool : pool' = (e.pool.releaseLive e.owned).2 := by
        rw [← Attempt.endWith_snd, h]
      rw [hpool]
      exact hlaid.trans (releaseLive_tallies e.pool e.owned)

/-- A plan that is made owns the slots that became live, each of which one of its stages allocates. -/
theorem emit_owned (hs : pool.Sound) (h : draft.emit pipelines pool = (.ok plan, pool')) :
    (∀ k, k ∈ plan.owned ↔ pool'.arena.contains k = true ∧ pool.arena.contains k = false) ∧
      (∀ k, pool.arena.contains k = true → pool'.arena.contains k = true) ∧ plan.owned.Nodup ∧
      plan.stages.filterMap Stage.allocated? = plan.owned := by
  obtain ⟨_, -, _, _, _, -, hprovided⟩ := emit_drawn hs h
  obtain ⟨grants, hgains, howned⟩ := hprovided.gains
  obtain ⟨canvas, e, -, hlaid, -⟩ := emit_ok h
  rw [howned]
  refine ⟨fun k => ⟨fun hk => ⟨(hgains.contains k).mpr (.inr hk), ?_⟩, fun ⟨hk, hnot⟩ => ?_⟩,
    fun k hk => (hgains.contains k).mpr (.inl hk), hgains.nodup, howned ▸ Emission.layOut_lists hlaid⟩
  · exact Bool.eq_false_iff.mpr fun hlive => hgains.not_granted hlive hk
  · refine ((hgains.contains k).mp hk).resolve_left fun hlive => ?_
    rw [hnot] at hlive
    cases hlive

end Draft

namespace Engine

variable {e e' : Engine ν α} {job : JobId} {p : Planning ν α}

/-- A call has learnt what has become of its plan: it ends with that, or is about to go on. -/
def LearnsPlan (e : Engine ν α) (job : JobId) (result : Except Failure PlanId) (e' : Engine ν α) : Prop :=
  match e.jobs[job]? with
  | some (.plan _) => e'.settled = e.settled ++ [(job, result.map .plan)]
  | some (.composite c) => e'.call? job = some { c with phase := .planned result }
  | _ => False

theorem planMade_learns (hp : e.planning? job = some p) (result : Except Failure PlanId) :
    e.LearnsPlan job result (e.planMade job result) ∧ (e.planMade job result).pool = e.pool ∧
      (e.planMade job result).plans = e.plans := by
  unfold planning? at hp
  unfold LearnsPlan planMade
  cases hjob : e.jobs[job]? with
  | none =>
    rw [hjob] at hp
    cases hp
  | some j =>
    rw [hjob] at hp
    cases j with
    | plan q => exact ⟨rfl, rfl, rfl⟩
    | composite c =>
      have hlt := (Array.getElem?_eq_some_iff.mp hjob).1
      exact ⟨call?_setCall_self hlt _, rfl, rfl⟩
    | lookup | wait => cases hp

section
variable [Measure ν] [Channel α] [Stored α] [Transfer α]

omit [Transfer α] in
/-- A call that has waited for its pipelines has its plan, or leaves no trace of it. -/
theorem planReady_outright (hs : e.pool.Sound) (hd : e.pool.Destroys) (hp : e.planning? job = some p)
    {result : Except Failure (List Pipeline)} (h : e.planReady job result = e') :
    (∃ rec, e.LearnsPlan job (.ok e.plans.size) e' ∧ e'.plans = e.plans.push rec ∧
      (∀ k, k ∈ rec.plan.owned ↔ e'.pool.arena.contains k = true ∧ e.pool.arena.contains k = false) ∧
      (∀ k, e.pool.arena.contains k = true → e'.pool.arena.contains k = true) ∧ rec.plan.owned.Nodup ∧
      rec.plan.stages.filterMap Stage.allocated? = rec.plan.owned) ∨
    ∃ failure, e.LearnsPlan job (.error failure) e' ∧ e'.plans = e.plans ∧
    Draft.Undone e.pool.arena e'.pool.arena := by
  unfold planReady at h
  rw [hp] at h
  cases result with
  | error failure =>
    obtain ⟨hlearns, hpool, hplans⟩ := planMade_learns hp (.error failure)
    subst h
    exact .inr ⟨failure, hlearns, hplans, hpool ▸ .refl _⟩
  | ok pipelines =>
    dsimp only at h
    cases hemit : p.draft.emit pipelines e.pool with
    | mk r pool =>
      rw [hemit] at h
      cases r with
      | error failure =>
        have hp : ({ e with pool } : Engine ν α).planning? job = some p := hp
        obtain ⟨hlearns, hpool, hplans⟩ := planMade_learns hp (.error failure)
        have hundone := Draft.emit_undone hs hd hemit
        subst h
        exact .inr ⟨failure, hlearns, hplans, hpool ▸ hundone⟩
      | ok plan =>
        have hp : (({ e with pool } : Engine ν α).addPlan plan).2.planning? job = some p := hp
        obtain ⟨hlearns, hpool, hplans⟩ := planMade_learns hp (.ok e.plans.size)
        have h : (({ e with pool } : Engine ν α).addPlan plan).2.planMade job (.ok e.plans.size) = e' := h
        have hpool : _ = pool := hpool
        rw [h] at hlearns hpool hplans
        subst hpool
        exact .inl ⟨⟨plan, #[]⟩, hlearns, hplans, Draft.emit_owned hs hemit⟩

omit [Channel α] [Stored α] [Transfer α] in
/-- A stack that is refused at once changes nothing, one that is not has no slots yet. -/
theorem beginPlanning_checked (job : JobId) (stack : List (BlendDescriptor ν α)) (uploads : List (Upload α)) :
    (∀ failure, Draft.check e.pool.arena e.capabilities e.cache.library stack uploads = .error failure →
      e.beginPlanning job stack uploads = (.error failure, e)) ∧
    ∀ draft, Draft.check e.pool.arena e.capabilities e.cache.library stack uploads = .ok draft →
      ∃ p, (e.beginPlanning job stack uploads).1 = .ok p ∧ p.draft = draft ∧
        (e.beginPlanning job stack uploads).2.pool.arena = e.pool.arena ∧
        (e.beginPlanning job stack uploads).2.settled = e.settled := by
  have haside := Aside.beginPlanning e job stack uploads
  unfold beginPlanning at haside ⊢
  cases hcheck : Draft.check e.pool.arena e.capabilities e.cache.library stack uploads with
  | error failure => exact ⟨fun _ h => (by cases h; rfl), nofun⟩
  | ok draft =>
    rw [hcheck] at haside
    obtain ⟨cache, device, turns, gated, heq, -⟩ := haside
    refine ⟨fun _ h => (by cases h), fun _ h => ?_⟩
    cases h
    dsimp only at heq ⊢
    rw [heq]
    exact ⟨_, rfl, rfl, rfl, rfl⟩

/-- No call makes the device fail to destroy a buffer, which no device does. -/
def SparesDestruction (moves : List (Move ν α)) : Prop :=
  ∀ call raised, Move.call (.fault call raised) ∈ moves → call ≠ .destroyBuffer

theorem run_able (h : e.Able [.destroyBuffer]) {moves : List (Move ν α)} (hm : SparesDestruction moves) :
    (e.run moves).Able [.destroyBuffer] := by
  induction moves generalizing e with
  | nil => exact h
  | cons m moves ih =>
    refine ih ?_ fun call raised hmem => hm call raised (List.mem_cons_of_mem _ hmem)
    obtain ⟨turns, -, hdeeds⟩ := move_deeds (R := Pool.Request.Spares [.destroyBuffer]) h.sorted m
      (fun _ => trivial)
      (fun op r _ hr => by cases op <;> cases hr <;> trivial) fun call raised hcall x hx => by
        rcases List.mem_append.mp hx with hx | hx
        · exact h.pool.faults x hx
        · rw [List.mem_singleton.mp hx, List.mem_singleton]
          exact hm call raised (hcall ▸ List.mem_cons_self ..)
    have hable : ({ e with turns } : Engine ν α).Able [.destroyBuffer] := ⟨h.pool, h.sorted⟩
    exact hdeeds.able (fun _ hr => hr) hable

/-- However an engine has been used: a call for a plan whose stack, uploads or modes are at fault ends at once, and
nothing but that has changed; any other waits, and has no slots. Once its pipelines have arrived or one has failed,
a call has a plan that owns the slots that became live, each allocated by one stage of it, or it is told a failure
and finds the same slots live, with what they held, and all references to them. -/
theorem plans_all_or_nothing {start : Engine ν α} (hstart : start.Opened) (hd : start.pool.Destroys)
    (moves : List (Move ν α)) (hm : SparesDestruction moves) :
    let e := start.run moves
    (∀ job stack uploads failure,
      Draft.check e.pool.arena e.capabilities e.cache.library stack uploads = .error failure →
      e.beginPlanning job stack uploads = (.error failure, e) ∧ e.move (.call (.makePlan stack uploads)) =
        ({ e with jobs := e.jobs.push .lookup } : Engine ν α).settle e.jobs.size (.error failure)) ∧
    (∀ stack uploads draft,
      Draft.check e.pool.arena e.capabilities e.cache.library stack uploads = .ok draft →
      let e' := e.move (.call (.makePlan stack uploads))
      e'.settled = e.settled ∧ e'.pool.arena = e.pool.arena ∧
        ∃ p, e'.jobs[e.jobs.size]? = some (.plan p) ∧ p.draft = draft) ∧
    ∀ m job p result, e.planning? job = some p → e.Takes m (.planReady job result) →
      let e' := e.move m
      (∃ rec, e.LearnsPlan job (.ok e.plans.size) e' ∧ e'.plans = e.plans.push rec ∧
        (∀ k, k ∈ rec.plan.owned ↔ e'.pool.arena.contains k = true ∧ e.pool.arena.contains k = false) ∧
        (∀ k, e.pool.arena.contains k = true → e'.pool.arena.contains k = true) ∧ rec.plan.owned.Nodup ∧
        rec.plan.stages.filterMap Stage.allocated? = rec.plan.owned) ∨
      ∃ failure, e.LearnsPlan job (.error failure) e' ∧ e'.plans = e.plans ∧
        e'.pool.arena.contains = e.pool.arena.contains ∧
        (∀ h ref, e'.pool.arena.resolve h = .ok ref ↔ e.pool.arena.resolve h = .ok ref) ∧
        ∀ i, (e'.pool.arena.slotAt i).refs = (e.pool.arena.slotAt i).refs := by
  intro e
  have hable : e.Able [.destroyBuffer] := by
    refine run_able (hstart.able fun x hx hspared => ?_) hm
    exact hd x.2 (List.mem_singleton.mp hspared ▸ hx)
  have hadded (stack : List (BlendDescriptor ν α)) (uploads : List (Upload α)) :=
    @beginPlanning_checked _ _ ({ e with jobs := e.jobs.push .lookup } : Engine ν α) _ e.jobs.size stack uploads
  refine ⟨fun job stack uploads failure hcheck => ⟨(beginPlanning_checked job stack uploads).1 failure hcheck, ?_⟩,
    fun stack uploads draft hcheck => ?_, fun m job p result hp hm => ?_⟩
  · show (e.startPlan stack uploads).2 = _
    unfold startPlan addJob
    dsimp only
    rw [(hadded stack uploads).1 failure hcheck]
  · show (e.startPlan stack uploads).2.settled = _ ∧ (e.startPlan stack uploads).2.pool.arena = _ ∧
      ∃ p, (e.startPlan stack uploads).2.jobs[e.jobs.size]? = some (.plan p) ∧ _
    obtain ⟨p, hp, hdraft, harena, hsettled⟩ := (hadded stack uploads).2 draft hcheck
    have hjobs :=
      (Aside.beginPlanning ({ e with jobs := e.jobs.push .lookup } : Engine ν α) e.jobs.size stack uploads).jobs
    unfold startPlan addJob
    dsimp only
    generalize beginPlanning ({ e with jobs := e.jobs.push .lookup } : Engine ν α) e.jobs.size stack uploads = r
      at hp harena hsettled hjobs
    obtain ⟨r, e₁⟩ := r
    cases hp
    refine ⟨hsettled, harena, p, ?_, hdraft⟩
    show (e₁.jobs.setIfInBounds e.jobs.size (.plan p))[e.jobs.size]? = _
    rw [hjobs]
    simp
  · rcases e.move_cases m with ⟨op, rfl⟩ | ⟨t, delay, rest, ht, -, heq⟩ | ⟨hnone, -⟩
    · exact hm.elim
    · obtain rfl := Takes.unique hm ht
      dsimp only
      rw [heq]
      have hready : ({ e with turns := rest } : Engine ν α).planReady job result =
        ({ e with turns := rest } : Engine ν α).perform (.planReady job result) := rfl
      have hsound : e.pool.Sound := hable.pool.sound
      have hdestroys : e.pool.Destroys := hable.pool.destroys (List.mem_singleton_self _)
      rcases planReady_outright (e := { e with turns := rest }) hsound hdestroys hp hready with
        hmade | ⟨failure, hlearns, hplans, hundone⟩
      · exact .inl hmade
      · exact .inr ⟨failure, hlearns, hplans, hundone.live, hundone.resolve, hundone.refs⟩
    · exact absurd hm (hnone _)

end

/-! ### Room for an image but not for parameters -/

namespace Scarce

open Thrice (source destination start)

def stack : List (BlendDescriptor Int Bool) := [⟨source, destination, "source-over", "srgb", true, none⟩]

/-- By the time the pipeline is there, the device makes no buffers for parameters. -/
def moves : List (Move Int Bool) :=
  Thrice.moves ++ [.call (.makePlan stack []), .call (.limitAllocation (some 16)), .fire, .fire, .fire]

theorem moves_spec : Gone.ready (start.run moves) = true ∧
    ((start.run moves).move .fire).plans.size = (start.run moves).plans.size := by decide +kernel

end Scarce

open Scarce Thrice in
theorem plans_all_or_nothing_scarce :
    (start.Opened ∧ start.pool.Destroys ∧ SparesDestruction Scarce.moves ∧
      ∃ p pipelines, (start.run Scarce.moves).planning? 0 = some p ∧
        (start.run Scarce.moves).Takes .fire (.planReady 0 (.ok pipelines))) ∧
    (start.run Scarce.moves).move (.call (.makePlan [] [])) =
      ({ start.run Scarce.moves with jobs := (start.run Scarce.moves).jobs.push .lookup } : Engine Int Bool).settle
        (start.run Scarce.moves).jobs.size (.error (.of .emptyStack)) ∧
    ((start.run Scarce.moves).move .fire).pool.arena.contains = (start.run Scarce.moves).pool.arena.contains := by
  have hstart : start.Opened := ⟨{ limits := .standard }, {}, .object [], rfl⟩
  have hd : start.pool.Destroys := fun r hr => absurd hr List.not_mem_nil
  have hm : SparesDestruction Scarce.moves := by simp [SparesDestruction, Scarce.moves, Thrice.moves]
  obtain ⟨hready, hsize⟩ := moves_spec
  obtain ⟨p, pipelines, hjob, htakes⟩ := Gone.takes_of_ready hready
  have hopen : (start.run Scarce.moves).pool.arena.closing.isNone = true := by decide +kernel
  obtain ⟨hrefused, -, hout⟩ := plans_all_or_nothing hstart hd Scarce.moves hm
  -- nothing more is computed of the run
  generalize start.run Scarce.moves = e at *
  have hempty : Draft.check e.pool.arena e.capabilities e.cache.library ([] : List (BlendDescriptor Int Bool)) [] =
      .error (.of .emptyStack) := by
    unfold Draft.check Arena.checkOpen
    rw [Option.isNone_iff_eq_none.mp hopen]
    rfl
  have hp : e.planning? 0 = some p := by
    unfold planning?
    rw [hjob]
  refine ⟨⟨hstart, hd, hm, p, pipelines, hp, htakes⟩, (hrefused 0 _ _ _ hempty).2, ?_⟩
  rcases hout .fire 0 p _ hp htakes with ⟨rec, -, hplans, -⟩ | ⟨failure, -, -, hlive, -⟩
  · rw [hplans, Array.size_push] at hsize
    omega
  · exact hlive

end Engine

end Strata
