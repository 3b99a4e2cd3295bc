import Strata.Proofs.Engine.Respects
import Strata.Proofs.Memory.Swept
import Strata.Proofs.Plan.Folding
import Strata.Proofs.Plan.Stack

/-!
# What is done for a call

`Works j e e'` says that an engine has gone on for the call `j` and has not lost sight of a slot: what is live was
live before and not needed by the call, or is needed by it now; and it needs nothing of anybody else
(`perform_works`). A call stands as it should (`Poised`) if it ends one attempt at a time and refers to its own
slots only.
-/

namespace Strata

variable {ν α : Type}

def AttemptPhase.isOver : AttemptPhase ν α → Bool
  | .ended => true
  | _ => false

/-- Slots that a plan in the making refers to. -/
def Draft.handles (d : Draft ν α) : List Handle :=
  d.steps.map (·.source) ++ d.uploads.map (·.handle) ++ [d.destination]

namespace Draft

variable [Measure ν] {draft : Draft ν α}

theorem check_handles {arena : Arena ν} {capabilities : Capabilities ν} {library : Library}
    {stack : List (BlendDescriptor ν α)} {uploads : List (Upload α)}
    (h : check arena capabilities library stack uploads = .ok draft) :
    ∀ k ∈ draft.handles, (∃ d ∈ stack, k = d.source ∨ k = d.destination) ∨ ∃ u ∈ uploads, k = u.handle := by
  obtain ⟨base, r, hreads⟩ := check_reads h
  intro k hk
  rcases List.mem_append.mp hk with hk | hk
  · rcases List.mem_append.mp hk with hk | hk
    · obtain ⟨step, hstep, rfl⟩ := List.mem_map.mp hk
      obtain ⟨i, hi⟩ := List.getElem?_of_mem hstep
      have hlt : i < stack.length := hreads.steps.1 ▸ (List.getElem?_eq_some_iff.mp hi).1
      obtain ⟨s, format, -, -, heq, -⟩ := hreads.steps.2 i stack[i] step (List.getElem?_eq_getElem hlt) hi
      exact .inl ⟨stack[i], List.getElem_mem hlt, .inl (by rw [heq])⟩
    · obtain ⟨u, hu, rfl⟩ := List.mem_map.mp hk
      exact .inr ⟨u, hreads.uploads ▸ hu, rfl⟩
  · rw [List.mem_singleton.mp hk, hreads.destination]
    exact .inl ⟨base, List.mem_of_mem_head? hreads.head, .inr rfl⟩

theorem handles_of_dispatchStages {width height : ν} {index : Nat} {backdrop : Option Handle}
    {steps : List (PlanStep ν α)} {pipelines : List Pipeline} {results blocks : List Handle} {s : Stage ν α}
    (hs : s ∈ Emission.dispatchStages width height index backdrop steps pipelines results blocks) {k : Handle}
    (hk : k ∈ s.handles) : k ∈ backdrop ∨ (∃ step ∈ steps, k = step.source) ∨ k ∈ results ∨ k ∈ blocks := by
  induction steps generalizing index backdrop pipelines results blocks with
  | nil =>
    unfold Emission.dispatchStages at hs
    cases hs
  | cons step steps ih =>
    cases pipelines with
    | nil => cases hs
    | cons p pipelines =>
      cases results with
      | nil => cases hs
      | cons result results =>
        cases blocks with
        | nil => cases hs
        | cons block blocks =>
          rcases List.mem_cons.mp hs with rfl | hs
          · have hk : k ∈ backdrop.toList ++ [step.source, result, block] := hk
            simp only [List.mem_append, List.mem_cons, List.not_mem_nil, or_false, Option.mem_toList] at hk
            rcases hk with hk | rfl | rfl | rfl
            · exact .inl hk
            · exact .inr (.inl ⟨step, List.mem_cons_self .., rfl⟩)
            · exact .inr (.inr (.inl (List.mem_cons_self ..)))
            · exact .inr (.inr (.inr (List.mem_cons_self ..)))
          · rcases ih hs with hk | ⟨step', hstep, rfl⟩ | hk | hk
            · exact .inr (.inr (.inl (Option.some.inj hk ▸ List.mem_cons_self ..)))
            · exact .inr (.inl ⟨step', List.mem_cons_of_mem _ hstep, rfl⟩)
            · exact .inr (.inr (.inl (List.mem_cons_of_mem _ hk)))
            · exact .inr (.inr (.inr (List.mem_cons_of_mem _ hk)))

variable [Stored α]

theorem Drawn.handles {pipelines : List Pipeline} {width height : ν} {results blocks : List Handle} {last : Handle}
    {plan : Plan ν α} (h : draft.Drawn pipelines width height results blocks last plan) :
    ∀ s ∈ plan.stages, ∀ k ∈ s.handles, k ∈ draft.handles ∨ k ∈ plan.owned := by
  intro s hs k hk
  have hworks : s ∈ Engine.Encoder.works plan.stages := by
    refine List.mem_filter.mpr ⟨hs, ?_⟩
    cases s with
    | allocate | barrier => cases hk
    | upload | dispatch | download => rfl
  rw [h.stages] at hworks
  rcases List.mem_append.mp hworks with hs | hs
  · rcases List.mem_append.mp hs with hs | hs
    · obtain ⟨u, hu, rfl⟩ := List.mem_map.mp hs
      obtain rfl := List.mem_singleton.mp hk
      rcases List.mem_append.mp hu with hu | hu
      · exact .inl (List.mem_append_left _ (List.mem_append_right _ (List.mem_map_of_mem hu)))
      · obtain ⟨⟨step, block⟩, hzip, rfl⟩ := List.mem_map.mp hu
        exact .inr (h.owned _ (.inr (List.of_mem_zip hzip).2))
    · rcases handles_of_dispatchStages hs hk with hk | ⟨step, hstep, rfl⟩ | hk | hk
      · cases hk
      · exact .inl (List.mem_append_left _ (List.mem_append_left _ (List.mem_map_of_mem hstep)))
      · exact .inr (h.owned _ (.inl hk))
      · exact .inr (h.owned _ (.inr hk))
  · obtain rfl := List.mem_singleton.mp hs
    have hk : k ∈ [last, draft.destination] := hk
    rcases List.mem_cons.mp hk with rfl | hk
    · exact .inr (h.owned _ (.inl (List.mem_of_getLast? h.last)))
    · exact .inl (List.mem_append_right _ hk)

variable [Channel α]

theorem emit_fails_contains {pipelines : List Pipeline} {pool pool' : Pool ν α} {failure : Failure}
    (hs : pool.Sound) (hd : pool.Destroys) (h : draft.emit pipelines pool = (.error failure, pool')) {k : Handle}
    (hk : pool'.arena.contains k = true) : pool.arena.contains k = true := by
  unfold emit at h
  split at h
  · cases h
    exact hk
  · rename_i canvas hc
    obtain ⟨grants, more, hg⟩ := @Emission.layOut_grows _ _ _ _ _ draft pipelines canvas.width canvas.height _ hs
    split at h
    · cases h
    · rename_i e heq
      rw [heq] at hg
      have hp : pool' = (e.pool.releaseLive e.owned).2 := by
        rw [← Attempt.endWith_snd, h]
      rw [hp] at hk
      obtain ⟨hk, hnot⟩ := (Pool.releaseLive_contains hg.gains.sound (hg.gains.destroys hd) e.owned k).mp hk
      rcases (hg.gains.contains k).mp hk with hk | hk
      · exact hk
      · rw [hg.owned, List.nil_append] at hnot
        exact absurd hk hnot

end Draft

namespace Engine

/-- The call is there and needs the slot. -/
def Needs (e : Engine ν α) (j : JobId) (k : Handle) : Prop := ∃ c, e.call? j = some c ∧ k ∈ e.claims c

structure Poised (e : Engine ν α) (j : JobId) (c : CompositeCall ν α) : Prop where
  ends : e.ends j = if c.phase.isOver then 1 else 0
  held : c.phase.isOver = true → c.held = []
  draft : ∀ p, c.phase = .planning p → ∀ k ∈ p.draft.handles, k ∈ c.held
  plan : ∀ id, c.phase.plan? = some id → ∃ rec, e.plans[id]? = some rec ∧
    ∀ s ∈ rec.plan.stages, ∀ k ∈ s.handles, k ∈ c.held ∨ k ∈ rec.plan.owned
  issued : ∀ k ∈ e.claims c, e.pool.arena.Issued k

structure Works (j : JobId) (e e' : Engine ν α) : Prop where
  poised : ∀ c, e'.call? j = some c → e'.Poised j c
  later : e.pool.arena.Later e'.pool.arena
  keeps : ∀ k, e'.pool.arena.contains k = true → e.pool.arena.contains k = true ∧ ¬e.Needs j k ∨ e'.Needs j k
  fresh : ∀ k, e'.Needs j k → e.Needs j k ∨ ¬e.pool.arena.Issued k

variable {e e' e'' : Engine ν α} {j : JobId} {c c' : CompositeCall ν α}

theorem ownedBy_eq (hplans : ∀ (id : PlanId) rec, e.plans[id]? = some rec → ∃ rec', e'.plans[id]? = some rec' ∧
    rec'.plan = rec.plan) {id : PlanId} {rec : PlanRecord ν α} (hrec : e.plans[id]? = some rec) :
    e'.ownedBy id = e.ownedBy id := by
  obtain ⟨rec', hrec', hp⟩ := hplans id rec hrec
  unfold ownedBy
  rw [hrec, hrec']
  exact congrArg Plan.owned hp

theorem claims_none (hp : c.phase.plan? = none) : e.claims c = c.held := by
  unfold claims
  rw [hp]
  exact List.append_nil _

theorem claims_some {id : PlanId} (hp : c.phase.plan? = some id) : e.claims c = c.held ++ e.ownedBy id := by
  unfold claims
  rw [hp, Option.toList_some, List.flatMap_singleton]

theorem needs_iff (hc : e.call? j = some c) {k : Handle} : e.Needs j k ↔ k ∈ e.claims c := by
  refine ⟨fun ⟨d, hd, hk⟩ => ?_, fun hk => ⟨c, hc, hk⟩⟩
  rw [hc] at hd
  cases hd
  exact hk

theorem not_needs (hc : e.call? j = none) (k : Handle) : ¬e.Needs j k := fun ⟨d, hd, _⟩ => by
  rw [hc] at hd
  cases hd

namespace Poised

theorem claims_eq (h : e.Poised j c) (hplans : ∀ (id : PlanId) rec, e.plans[id]? = some rec →
    ∃ rec', e'.plans[id]? = some rec' ∧ rec'.plan = rec.plan) : e'.claims c = e.claims c := by
  cases hp : c.phase.plan? with
  | none => rw [claims_none hp, claims_none hp]
  | some id =>
    obtain ⟨rec, hrec, -⟩ := h.plan id hp
    rw [claims_some hp, claims_some hp, ownedBy_eq hplans hrec]

theorem later (h : e.Poised j c) (hends : e'.ends j = e.ends j) (hplans : ∀ (id : PlanId) rec,
    e.plans[id]? = some rec → ∃ rec', e'.plans[id]? = some rec' ∧ rec'.plan = rec.plan)
    (hl : e.pool.arena.Later e'.pool.arena) : e'.Poised j c := by
  refine ⟨hends.trans h.ends, h.held, h.draft, fun id hid => ?_, fun k hk => ?_⟩
  · obtain ⟨rec, hrec, hstages⟩ := h.plan id hid
    obtain ⟨rec', hrec', hp⟩ := hplans id rec hrec
    exact ⟨rec', hrec', hp ▸ hstages⟩
  · rw [h.claims_eq hplans] at hk
    exact (h.issued k hk).later hl

theorem plan?_none (hover : c.phase.isOver = true) : c.phase.plan? = none := by
  cases hp : c.phase with
  | ended => rfl
  | planning | planned | draining =>
    rw [hp] at hover
    cases hover

theorem claims_nil (h : e.Poised j c) (hover : c.phase.isOver = true) : e.claims c = [] := by
  rw [claims_none (plan?_none hover), h.held hover]

end Poised

theorem pass_pool (e : Engine ν α) (j : JobId) (t : SubmissionId) (o : Outcome) : (e.pass j t o).pool = e.pool := by
  unfold pass
  split <;> rfl

theorem waitFor_pool (e : Engine ν α) (j : JobId) (t : SubmissionId) : (e.waitFor j t).pool = e.pool := by
  unfold waitFor
  split
  · exact pass_pool ..
  · split
    · exact pass_pool ..
    · dsimp only
      split
      · exact pass_pool ..
      · rfl
      · rfl

theorem drained_pool (e : Engine ν α) (j : JobId) (t : SubmissionId) (o : Outcome) :
    (e.drained j t o).pool = e.pool := by
  have hreport (e' : Engine ν α) (aborted : Bool) (failure : Failure) :
      (if aborted then e'.report (.failedAfterAbort failure) else e').pool = e'.pool := by
    cases aborted <;> rfl
  unfold drained
  dsimp only
  cases o with
  | ok u => split <;> rfl
  | error failure =>
    split
    · exact hreport _ _ failure
    · exact hreport _ _ failure

namespace Works

theorem trans (h : e.Works j e') (h' : e'.Works j e'') : e.Works j e'' := by
  refine ⟨h'.poised, h.later.trans h'.later, fun k hk => ?_, fun k hn => ?_⟩
  · rcases h'.keeps k hk with ⟨hk, hnot⟩ | hn
    · exact .inl ((h.keeps k hk).resolve_right hnot)
    · exact .inr hn
  · rcases h'.fresh k hn with hn | hnew
    · exact h.fresh k hn
    · exact .inr fun hi => hnew (hi.later h.later)

theorem after (h : e'.Works j e'') (hl : e.pool.arena.Later e'.pool.arena)
    (hk : ∀ k, e'.pool.arena.contains k = true → e.pool.arena.contains k = true)
    (hn : ∀ k, e'.Needs j k ↔ e.Needs j k) : e.Works j e'' := by
  refine ⟨h.poised, hl.trans h.later, fun k h' => ?_, fun k h' => ?_⟩
  · exact (h.keeps k h').imp_left fun ⟨hlive, hnot⟩ => ⟨hk k hlive, fun hneeds => hnot ((hn k).mpr hneeds)⟩
  · exact (h.fresh k h').imp (hn k).mp fun hnew hi => hnew (hi.later hl)

theorem of_call (hc : e'.call? j = some c) (hp : e'.Poised j c) (hl : e.pool.arena.Later e'.pool.arena)
    (hk : ∀ k, e'.pool.arena.contains k = true → e.pool.arena.contains k = true ∧ ¬e.Needs j k ∨ k ∈ e'.claims c)
    (hf : ∀ k ∈ e'.claims c, e.Needs j k ∨ ¬e.pool.arena.Issued k) : e.Works j e' := by
  refine ⟨fun d hd => ?_, hl, fun k h => (hk k h).imp_right fun h => ⟨c, hc, h⟩, fun k h => ?_⟩
  · rw [hc] at hd
    cases hd
    exact hp
  · exact hf k ((needs_iff hc).mp h)

end Works

namespace Skips

theorem needs (h : e.Skips j e') (hp : ∀ c, e.call? j = some c → e.Poised j c) (k : Handle) :
    e'.Needs j k ↔ e.Needs j k := by
  unfold Needs
  rw [h.call]
  refine exists_congr fun d => and_congr_right fun hd => ?_
  rw [(hp d hd).claims_eq h.plans]

theorem poised (h : e.Skips j e') (hp : ∀ c, e.call? j = some c → e.Poised j c)
    (hl : e.pool.arena.Later e'.pool.arena) : ∀ c, e'.call? j = some c → e'.Poised j c := by
  intro d hd
  rw [h.call] at hd
  exact (hp d hd).later (h.ends (hd ▸ rfl)) h.plans hl

theorem works (h : e.Skips j e') (hp : ∀ c, e.call? j = some c → e.Poised j c)
    (hl : e.pool.arena.Later e'.pool.arena)
    (hk : ∀ k, e'.pool.arena.contains k = true → e.pool.arena.contains k = true) : e.Works j e' := by
  refine ⟨h.poised hp hl, hl, fun k h' => ?_, fun k hn => .inl ((h.needs hp k).mp hn)⟩
  by_cases hn : e.Needs j k
  · exact .inr ((h.needs hp k).mpr hn)
  · exact .inl ⟨hk k h', hn⟩

end Skips

namespace Works

theorem schedule (h : e.Works j e') (delay : Nat) {t : Turn ν α} (ht : t.endsAttempt j = false) :
    e.Works j (e'.schedule delay t) := by
  refine ⟨fun d hd => ?_, h.later, h.keeps, h.fresh⟩
  refine (h.poised d hd).later ?_ (fun id rec hrec => ⟨rec, hrec, rfl⟩) (.refl _)
  rw [ends_schedule, ht]
  rfl

/-! ## The end of an attempt -/

variable {pool : Pool ν α}

/-- All that the call needed is given up. -/
theorem ended (hj : j < e.jobs.size) (hends : e.ends j = 0) (hl : e.pool.arena.Later pool.arena)
    (hk : ∀ k, pool.arena.contains k = true → e.pool.arena.contains k = true ∧ ¬e.Needs j k) (c : CompositeCall ν α)
    (result : Except Failure (Raster ν α)) :
    e.Works j (({ e with pool }.setCall j { c with held := [], phase := .ended }).schedule 1
      (.attemptEnded j result)) := by
  let e' : Engine ν α := ({ e with pool }.setCall j { c with held := [], phase := .ended }).schedule 1
    (.attemptEnded j result)
  have hcall : e'.call? j = some { c with held := [], phase := .ended } := call?_setCall_self hj _
  have hends' : e'.ends j = 1 := by
    rw [ends_schedule, show (Turn.attemptEnded j result : Turn ν α).endsAttempt j = true from beq_self_eq_true j]
    exact congrArg (· + 1) hends
  have hpoised : e'.Poised j { c with held := [], phase := .ended } :=
    ⟨hends', fun _ => rfl, (fun p h => by cases h), (fun id h => by cases h), fun k h => absurd h List.not_mem_nil⟩
  exact of_call hcall hpoised hl (fun k h => .inl (hk k h)) fun k h => absurd h List.not_mem_nil

variable [Measure ν]

theorem leave (hs : e.pool.Sound) (hd : e.pool.Destroys) (hc : e.call? j = some c) (hends : e.ends j = 0)
    {owned : List Handle} (ho : ∀ k ∈ e.claims c, k ∈ c.held ++ owned) (result : Except Failure (Raster ν α)) :
    e.Works j (e.leave j owned result) := by
  rw [leave_eq hc]
  refine ended (lt_of_call? hc) hends (Pool.releaseLive_spec hs _).1.later (fun k hk => ?_) c _
  obtain ⟨hk, hnot⟩ := (Pool.releaseLive_contains hs hd _ k).mp hk
  exact ⟨hk, fun hn => hnot (ho k ((needs_iff hc).mp hn))⟩

theorem abandon {grants : List (Pool.Grant ν)} (hg : e.pool.Gains pool grants) (hd : e.pool.Destroys)
    (hj : j < e.jobs.size) (hends : e.ends j = 0) (hn : ∀ k, ¬e.Needs j k) {held : List Handle}
    (hheld : held = grants.map (·.handle)) (c : CompositeCall ν α) (result : Except Failure (Raster ν α)) :
    e.Works j (({ e with pool }.setCall j { c with held }).leave j [] result) := by
  subst hheld
  rw [leave_setCall (e := { e with pool }) hj]
  refine ended hj hends (hg.later.trans (Pool.releaseLive_spec hg.sound _).1.later) (fun k hk => ?_) c _
  obtain ⟨hk, hnot⟩ := (Pool.releaseLive_contains hg.sound (hg.destroys hd) _ k).mp hk
  exact ⟨((hg.contains k).mp hk).resolve_right hnot, hn k⟩

/-! ## Starting -/

omit [Measure ν] in
theorem entered {grants : List (Pool.Grant ν)} (hg : e.pool.Gains pool grants) (hj : j < e.jobs.size)
    (hends : e'.ends j = 0) (hn : ∀ k, ¬e.Needs j k) (harena : e'.pool.arena = pool.arena)
    (hjobs : e'.jobs = e.jobs) (hheld : c.held = grants.map (·.handle)) (hp : c.phase.plan? = none)
    (hover : c.phase.isOver = false)
    (hdraft : ∀ p, c.phase = .planning p → ∀ k ∈ p.draft.handles, k ∈ c.held) : e.Works j (e'.setCall j c) := by
  have hclaims : (e'.setCall j c).claims c = grants.map (·.handle) := (claims_none hp).trans hheld
  have hlater : e.pool.arena.Later (e'.setCall j c).pool.arena := by
    show e.pool.arena.Later e'.pool.arena
    rw [harena]
    exact hg.later
  have hpoised : (e'.setCall j c).Poised j c := by
    refine ⟨?_, (fun h => by rw [hover] at h; cases h), hdraft, (fun id h => by rw [hp] at h; cases h),
      fun k hk => ?_⟩
    · rw [hover]
      exact hends
    · rw [hclaims] at hk
      obtain ⟨g, hmem, rfl⟩ := List.mem_map.mp hk
      show e'.pool.arena.Issued g.handle
      rw [harena]
      exact hg.issued hmem
  refine of_call (call?_setCall_self (hjobs ▸ hj) c) hpoised hlater (fun k hk => ?_) fun k hk => ?_
  · have hk : e'.pool.arena.contains k = true := hk
    rw [harena] at hk
    rw [hclaims]
    rcases (hg.contains k).mp hk with hk | hk
    · exact .inl ⟨hk, hn k⟩
    · exact .inr hk
  · rw [hclaims] at hk
    obtain ⟨g, hmem, rfl⟩ := List.mem_map.mp hk
    exact .inr (hg.fresh g hmem)

section
variable [Channel α]

/-- A draft over the slots of an attempt refers to no others. -/
theorem draft_held {arena : Arena ν} {capabilities : Capabilities ν} {library : Library} {destination : Handle}
    {layers : List (Layer ν α)} {sources : List Handle} {stack : List (BlendDescriptor ν α)} {draft : Draft ν α}
    (hstack : stackOf destination layers sources = .ok stack)
    (hdraft : Draft.check arena capabilities library stack (uploadsOf layers sources) = .ok draft) :
    ∀ k ∈ draft.handles, k ∈ sources ++ [destination] := by
  intro k hk
  rcases Draft.check_handles hdraft k hk with ⟨d, hd, hk⟩ | ⟨u, hu, rfl⟩
  · rw [stackOf_ok hstack, ← List.map_uncurry_zip_eq_zipWith] at hd
    obtain ⟨⟨l, source⟩, hzip, rfl⟩ := List.mem_map.mp hd
    rcases hk with rfl | rfl
    · exact List.mem_append_left _ (List.of_mem_zip hzip).2
    · exact List.mem_append_right _ (List.mem_singleton_self _)
  · obtain ⟨⟨l, source⟩, hzip, rfl⟩ := List.mem_map.mp hu
    exact List.mem_append_left _ (List.of_mem_zip hzip).2

theorem planAttempt {grants : List (Pool.Grant ν)} (hg : e.pool.Gains pool grants) (hd : e.pool.Destroys)
    (hj : j < e.jobs.size) (hends : e.ends j = 0) (hn : ∀ k, ¬e.Needs j k) {sources : List Handle}
    {destination : Handle} (hheld : sources ++ [destination] = grants.map (·.handle)) (c : CompositeCall ν α) :
    e.Works j ({ e with pool }.planAttempt j c destination sources) := by
  unfold Engine.planAttempt
  dsimp only
  split
  · exact abandon hg hd hj hends hn hheld c _
  · rename_i stack hstack
    have haside := Aside.beginPlanning { e with pool } j stack (uploadsOf c.layers sources)
    have hasks := Asks.beginPlanning { e with pool } j stack (uploadsOf c.layers sources)
    have hok (p : Planning ν α) := @beginPlanning_ok _ _ { e with pool } j _ stack (uploadsOf c.layers sources) p
    split
    · rename_i failure e' heq
      obtain rfl := beginPlanning_error heq
      have hset : e.Works j (({ e with pool } : Engine ν α).setCall j
          { c with held := sources ++ [destination], phase := .planned (.error failure) }) :=
        entered hg hj hends hn rfl rfl hheld rfl rfl fun p h => by cases h
      exact hset.schedule 1 rfl
    · rename_i p e' heq
      rw [heq] at haside hasks hok
      obtain ⟨draft, hdraft, rfl⟩ := hok p rfl
      obtain ⟨cache, device, turns, gated, he', -⟩ := haside
      dsimp only at he'
      refine entered hg hj ((hasks.2 j).trans hends) hn (by rw [he']) (by rw [he']) hheld rfl rfl fun p h => ?_
      cases h
      exact draft_held hstack hdraft

theorem startAttempt (hs : e.pool.Sound) (hd : e.pool.Destroys) (hj : j < e.jobs.size) (hends : e.ends j = 0)
    (hn : ∀ k, ¬e.Needs j k) (c : CompositeCall ν α) : e.Works j (e.startAttempt j c) := by
  have hend (failure : Failure) : e.Works j ((e.setCall j { c with held := [], phase := .ended }).schedule 1
      (.attemptEnded j (.error failure))) :=
    ended hj hends (.refl _) (fun k hk => ⟨hk, hn k⟩) c _
  unfold Engine.startAttempt
  split
  · exact hend _
  · exact hend _
  · rename_i base _ _
    obtain ⟨grants, hgains, hhandles, -⟩ := allocateSources_gains hs c.layers
    generalize allocateSources e.pool c.layers = r at hgains hhandles
    obtain ⟨r, sources, pool⟩ := r
    dsimp only at hgains hhandles
    cases r with
    | error failure => exact abandon hgains hd hj hends hn hhandles c _
    | ok u =>
      dsimp only
      obtain ⟨herr, hok⟩ := Pool.allocate_spec hgains.sound
        (.image .readback .float32 base.raster.width base.raster.height)
        (workingBytes base.raster.width base.raster.height)
      generalize pool.allocate (.image .readback .float32 base.raster.width base.raster.height)
        (workingBytes base.raster.width base.raster.height) = r at herr hok
      obtain ⟨r, pool'⟩ := r
      cases r with
      | error failure =>
        have hall := hgains.trans (.of_quiet (herr failure rfl))
        rw [List.append_nil] at hall
        exact abandon hall hd hj hends hn hhandles c _
      | ok destination =>
        obtain ⟨bytes, -, halloc⟩ := hok destination rfl
        refine planAttempt (hgains.trans (.of_allocated halloc)) hd hj hends hn ?_ c
        rw [hhandles, List.map_append]
        rfl

end

/-! ## Going on -/

omit [Measure ν] in
theorem setCall (hc : e.call? j = some c) (hp : e.Poised j c) (hover : c.phase.isOver = false)
    {c' : CompositeCall ν α} (hheld : c'.held = c.held) (hplan : c'.phase.plan? = c.phase.plan?)
    (hover' : c'.phase.isOver = false)
    (hdraft : ∀ p, c'.phase = .planning p → ∀ k ∈ p.draft.handles, k ∈ c'.held) : e.Works j (e.setCall j c') := by
  have hclaims : (e.setCall j c').claims c' = e.claims c := by
    show c'.held ++ c'.phase.plan?.toList.flatMap e.ownedBy = _
    rw [hheld, hplan]
    rfl
  have hpoised : (e.setCall j c').Poised j c' := by
    refine ⟨?_, (fun h => by rw [hover'] at h; cases h), hdraft, fun id h => ?_, fun k hk => ?_⟩
    · have hends := hp.ends
      rw [hover] at hends
      rw [hover']
      exact hends
    · rw [hheld]
      exact hp.plan id (hplan ▸ h)
    · exact hp.issued k (hclaims ▸ hk)
  refine of_call (call?_setCall_self (lt_of_call? hc) c') hpoised (.refl _) (fun k hk => ?_) fun k hk => ?_
  · rw [hclaims]
    by_cases hmem : k ∈ e.claims c
    · exact .inr hmem
    · exact .inl ⟨hk, fun hn => hmem ((needs_iff hc).mp hn)⟩
  · exact .inl ((needs_iff hc).mpr (hclaims ▸ hk))

omit [Measure ν] in
theorem only (hc : e.call? j = some c) (hp : e.Poised j c) : ∀ d, e.call? j = some d → e.Poised j d := by
  intro d hd
  rw [hc] at hd
  cases hd
  exact hp

omit [Measure ν] in
theorem refl (hp : ∀ c, e.call? j = some c → e.Poised j c) : e.Works j e :=
  Skips.works ⟨rfl, fun _ => rfl, fun _ rec hrec => ⟨rec, hrec, rfl⟩⟩ hp (.refl _) fun _ => id

omit [Measure ν] in
theorem planning?_eq (hc : e.call? j = some c) {p : Planning ν α} (h : e.planning? j = some p) :
    c.phase = .planning p := by
  unfold planning? at h
  rw [call?_eq.mp hc] at h
  cases hp : c.phase with
  | planning q =>
    obtain ⟨layers, outputFormat, signal, verifies, retries, held, phase⟩ := c
    cases hp
    cases h
    rfl
  | planned | draining | ended =>
    obtain ⟨layers, outputFormat, signal, verifies, retries, held, phase⟩ := c
    cases hp
    cases h

omit [Measure ν] in
theorem pipelineArrived (hc : e.call? j = some c) (hp : e.Poised j c) (index : Nat)
    (result : Except Failure Pipeline) : e.Works j (e.pipelineArrived j index result) := by
  unfold Engine.pipelineArrived
  split
  · exact refl (only hc hp)
  · rename_i p hplanning
    have hphase := planning?_eq hc hplanning
    have hset (q : Planning ν α) (hq : q.draft = p.draft) : e.Works j (e.setPlanning j q) := by
      rw [setPlanning_eq hc]
      refine setCall hc hp (by rw [hphase]; rfl) rfl (by rw [hphase]; rfl) rfl fun q' h => ?_
      cases h
      rw [hq]
      exact hp.draft p hphase
    split
    · exact refl (only hc hp)
    · split
      · exact (hset { p with ended := true } rfl).schedule 1 rfl
      · rename_i pipeline
        dsimp only
        split
        · exact (hset { p with arrived := p.arrived.set index (some pipeline), ended := true } rfl).schedule 1 rfl
        · exact hset _ rfl

section
variable [Channel α] [Stored α]

omit [Channel α] [Stored α] [Measure ν] in
/-- A plan is made over the slots of an attempt and new ones. -/
theorem made (hc : e.call? j = some c) (hp : e.Poised j c) {p : Planning ν α} (hphase : c.phase = .planning p)
    {grants : List (Pool.Grant ν)} (hgains : e.pool.Gains pool grants) {plan : Plan ν α}
    (howned : plan.owned = grants.map (·.handle))
    (hstages : ∀ s ∈ plan.stages, ∀ k ∈ s.handles, k ∈ p.draft.handles ∨ k ∈ plan.owned) :
    e.Works j ((({ e with pool } : Engine ν α).addPlan plan).2.setCall j
      { c with phase := .planned (.ok e.plans.size) }) := by
  let e' : Engine ν α := (({ e with pool } : Engine ν α).addPlan plan).2
  let c' : CompositeCall ν α := { c with phase := .planned (.ok e.plans.size) }
  have hrec : (e'.setCall j c').plans[e.plans.size]? = some ⟨plan, #[]⟩ := Array.getElem?_push_size
  have hold : e.claims c = c.held := claims_none (by rw [hphase]; rfl)
  have hclaims : (e'.setCall j c').claims c' = c.held ++ grants.map (·.handle) := by
    rw [claims_some rfl, ← howned]
    unfold ownedBy
    rw [hrec]
    rfl
  have hpoised : (e'.setCall j c').Poised j c' := by
    have hends := hp.ends
    rw [hphase] at hends
    refine ⟨hends, (fun h => by cases h), (fun p h => by cases h), fun id h => ?_, fun k hk => ?_⟩
    · cases h
      refine ⟨_, hrec, fun s hmem k hk => ?_⟩
      exact (hstages s hmem k hk).imp_left (hp.draft p hphase k)
    · rw [hclaims] at hk
      rcases List.mem_append.mp hk with hk | hk
      · exact (hp.issued k (hold ▸ hk)).later hgains.later
      · obtain ⟨g, hmem, rfl⟩ := List.mem_map.mp hk
        exact hgains.issued hmem
  refine of_call (call?_setCall_self (lt_of_call? hc) c') hpoised hgains.later (fun k hk => ?_) fun k hk => ?_
  · rw [hclaims, List.mem_append]
    by_cases hmem : k ∈ c.held
    · exact .inr (.inl hmem)
    · rcases (hgains.contains k).mp hk with hk | hk
      · exact .inl ⟨hk, fun hn => hmem (hold ▸ (needs_iff hc).mp hn)⟩
      · exact .inr (.inr hk)
  · rw [hclaims, List.mem_append] at hk
    rcases hk with hk | hk
    · exact .inl ((needs_iff hc).mpr (hold ▸ hk))
    · obtain ⟨g, hmem, rfl⟩ := List.mem_map.mp hk
      exact .inr (hgains.fresh g hmem)

theorem planReady (hs : e.pool.Sound) (hd : e.pool.Destroys) (hc : e.call? j = some c) (hp : e.Poised j c)
    (result : Except Failure (List Pipeline)) : e.Works j (e.planReady j result) := by
  have hfail {pool : Pool ν α} {p : Planning ν α} (hphase : c.phase = .planning p)
      (hl : e.pool.arena.Later pool.arena)
      (hk : ∀ k, pool.arena.contains k = true → e.pool.arena.contains k = true) (failure : Failure) :
      e.Works j (({ e with pool } : Engine ν α).planMade j (.error failure)) := by
    have hpool : e.Works j { e with pool } :=
      Skips.works ⟨rfl, fun _ => rfl, fun _ rec hrec => ⟨rec, hrec, rfl⟩⟩ (only hc hp) hl hk
    have hcall : ({ e with pool } : Engine ν α).call? j = some c := hc
    have hset : ({ e with pool } : Engine ν α).Works j
        (({ e with pool } : Engine ν α).setCall j { c with phase := .planned (.error failure) }) :=
      setCall hcall (hpool.poised c hcall) (by rw [hphase]; rfl) rfl (by rw [hphase]; rfl) rfl fun p h => by cases h
    rw [planMade_eq hcall]
    exact (hpool.trans hset).schedule 1 rfl
  unfold Engine.planReady
  split
  · exact refl (only hc hp)
  · rename_i p failure hplanning
    exact hfail (planning?_eq hc hplanning) (.refl _) (fun _ => id) failure
  · rename_i p pipelines hplanning
    have hphase := planning?_eq hc hplanning
    split
    · rename_i failure pool hemit
      exact hfail hphase (Draft.emit_fails hs hemit).1.later (fun k =>
        Draft.emit_fails_contains hs hd hemit) failure
    · rename_i plan pool hemit
      obtain ⟨r, -, results, blocks, last, hdrawn, hprovided⟩ := Draft.emit_drawn hs hemit
      obtain ⟨grants, hgains, howned⟩ := hprovided.gains
      have hcall : (({ e with pool } : Engine ν α).addPlan plan).2.call? j = some c := hc
      show e.Works j ((({ e with pool } : Engine ν α).addPlan plan).2.planMade j (.ok e.plans.size))
      rw [planMade_eq hcall]
      exact (made hc hp hphase hgains howned hdrawn.handles).schedule 1 rfl

variable [Transfer α]

theorem planned (h : e.Able [.destroyBuffer]) (hc : e.call? j = some c) (hp : e.Poised j c) :
    e.Works j (e.planned j) := by
  have hd := h.pool.destroys (List.mem_singleton_self _)
  have hends (hover : c.phase.isOver = false) : e.ends j = 0 := by
    rw [hp.ends, hover]
    rfl
  unfold Engine.planned
  rw [hc]
  dsimp only
  split
  · rename_i failure hphase
    refine leave h.pool.sound hd hc (hends (by rw [hphase]; rfl)) (fun k hk => ?_) _
    rw [claims_none (by rw [hphase]; rfl)] at hk
    exact List.mem_append_left _ hk
  · rename_i plan hphase
    have hplan : c.phase.plan? = some plan := by
      rw [hphase]
      rfl
    have hover : c.phase.isOver = false := by
      rw [hphase]
      rfl
    split
    · exact leave h.pool.sound hd hc (hends hover) (fun k hk => claims_some hplan ▸ hk) _
    · -- submitting is not among the work for a call: nothing becomes live, and no other slot is needed
      have hsubmit : e.Works j (e.submit plan).2 := ((submit_bystands e plan).skips j).works (only hc hp)
        (submit_later h plan) fun k hk => submit_contains h plan ▸ hk
      have hable := submit_able h plan
      have hcall : (e.submit plan).2.call? j = some c := ((submit_bystands e plan).call? j).trans hc
      split
      all_goals
        rename_i heq
        rw [heq] at hsubmit hable hcall
      · rename_i failure e'
        refine hsubmit.trans (leave hable.pool.sound (hable.pool.destroys (List.mem_singleton_self _)) hcall ?_
          (fun k hk => claims_some hplan ▸ hk) _)
        rw [(hsubmit.poised c hcall).ends, hover]
        rfl
      · rename_i token e'
        have hset : e.Works j (e'.setCall j { c with phase := .draining plan token }) :=
          hsubmit.trans
            (setCall hcall (hsubmit.poised c hcall) hover rfl (by rw [hphase]; rfl) rfl fun p h => by cases h)
        have hwait {e'' : Engine ν α} (h' : e.Works j e'') : e.Works j (e''.waitFor j token) := by
          refine h'.trans (((waitFor_bystands e'' j token).skips j).works h'.poised ?_ ?_)
          all_goals rw [waitFor_pool]
          · exact .refl _
          · exact fun _ => id
        split
        · exact hwait (hset.trans (Skips.works ⟨rfl, fun _ => rfl, fun _ rec hrec => ⟨rec, hrec, rfl⟩⟩ hset.poised
            (.refl _) fun _ => id))
        · exact hwait hset
  · exact refl (only hc hp)

theorem resumed (hs : e.pool.Sound) (hd : e.pool.Destroys) (hc : e.call? j = some c) (hp : e.Poised j c)
    (token : SubmissionId) (outcome : Outcome) : e.Works j (e.resumed j token outcome) := by
  unfold Engine.resumed
  rw [hc]
  dsimp only
  split
  · rename_i plan awaited base hphase _
    split
    · have hends := hp.ends
      rw [hphase] at hends
      have hplan : c.phase.plan? = some plan := by
        rw [hphase]
        rfl
      exact leave hs hd hc hends (fun k hk => claims_some hplan ▸ hk) _
    · exact refl (only hc hp)
  · exact refl (only hc hp)

omit [Channel α] [Stored α] [Measure ν] [Transfer α] in
theorem settle (hc : e.call? j = some c) (hover : c.phase.isOver = true) (hheld : c.held = [])
    (hcall : e'.call? j = some c) (hends' : e'.ends j = 0) (hl : e.pool.arena.Later e'.pool.arena)
    (hk : ∀ k, e'.pool.arena.contains k = true → e.pool.arena.contains k = true)
    (result : Except Failure (JobValue ν α)) : e.Works j (e'.settle j result) := by
  have hplan := Poised.plan?_none hover
  have hclaims (x : Engine ν α) : x.claims c = [] := (claims_none hplan).trans hheld
  have hpoised : (e'.settle j result).Poised j c := by
    refine ⟨?_, fun _ => hheld, fun p h => ?_, (fun id h => by rw [hplan] at h; cases h), fun k hk => ?_⟩
    · rw [ends_settle, hends', hover, if_pos rfl]
      rfl
    · rw [h] at hover
      cases hover
    · rw [hclaims] at hk
      cases hk
  refine of_call hcall hpoised hl (fun k h => .inl ⟨hk k h, fun hn => ?_⟩) fun k hk => ?_
  · rw [needs_iff hc, hclaims] at hn
    cases hn
  · rw [hclaims] at hk
    cases hk

theorem attemptEnded (hs : e.pool.Sound) (hd : e.pool.Destroys) (hc : e.call? j = some c) (hends : e.ends j = 0)
    (hover : c.phase.isOver = true) (hheld : c.held = []) (result : Except Failure (Raster ν α)) :
    e.Works j (e.attemptEnded j result) := by
  have hsettle {e' : Engine ν α} (hcall : e'.call? j = some c) (hends' : e'.ends j = 0) (hq : e.pool.Quiet e'.pool)
      (result : Except Failure (JobValue ν α)) : e.Works j (e'.settle j result) :=
    settle hc hover hheld hcall hends' hq.later (fun k hk => hq.contains ▸ hk) result
  have hnone (k : Handle) : ¬e.Needs j k := by
    rw [needs_iff hc, claims_none (Poised.plan?_none hover), hheld]
    exact List.not_mem_nil
  unfold Engine.attemptEnded
  rw [hc]
  cases result with
  | ok raster =>
    dsimp only
    split
    · refine hsettle ?_ ?_ ?_ _
      · exact hc
      · exact hends
      · exact .refl hs
    · exact hsettle hc hends (.refl hs) _
  | error failure =>
    dsimp only
    split
    · let e₁ : Engine ν α := e.report (.retrying (c.retries + 1) (e.config.retries.getD 0))
      have htrim : e.pool.Quiet e₁.pool.trim.2 := Pool.trim_quiet hs
      split
      · rename_i pool heq
        rw [show e₁.pool.trim = (.ok (), pool) from heq] at htrim
        have hneeds (k : Handle) : ({ e₁ with pool } : Engine ν α).Needs j k ↔ e.Needs j k := Iff.rfl
        have hretry := startAttempt (e := { e₁ with pool }) htrim.sound (htrim.destroys hd) (lt_of_call? hc) hends
          (fun k => (hneeds k).not.mpr (hnone k)) { c with retries := c.retries + 1 }
        exact after hretry htrim.later (fun k hk => htrim.contains ▸ hk) hneeds
      · rename_i heq
        rw [show e₁.pool.trim = _ from heq] at htrim
        refine hsettle ?_ ?_ ?_ _
        · exact hc
        · exact hends
        · exact htrim
    · exact hsettle hc hends (.refl hs) _

omit [Stored α] [Transfer α] in
theorem startComposite (h : e.Tidy) (hs : e.pool.Sound) (hd : e.pool.Destroys) (layers options : Value α)
    (verifies : Bool) : e.Works e.jobs.size (e.startComposite layers options verifies).2 := by
  let e₁ : Engine ν α := (e.addJob .lookup).2
  have hlt : e.jobs.size < e₁.jobs.size := Array.size_push .. ▸ Nat.lt_succ_self _
  have hnone : e₁.call? e.jobs.size = none := Respects.call?_new e
  have hends : e₁.ends e.jobs.size = 0 := h.begun _ (Nat.le_refl _)
  have hadd {e' : Engine ν α} (h : e₁.Works e.jobs.size e') : e.Works e.jobs.size e' :=
    after h (.refl _) (fun _ => id) fun k => iff_of_false (not_needs hnone k)
      (not_needs (call?_of_size_le (Nat.le_refl _)) k)
  have hfail (failure : Failure) : e₁.Works e.jobs.size (e₁.settle e.jobs.size (.error failure)) := by
    have hcall : (e₁.settle e.jobs.size (.error failure)).call? e.jobs.size = none := hnone
    refine ⟨fun c hc => ?_, .refl _, fun k hk => .inl ⟨hk, not_needs hnone k⟩, fun k hn =>
      absurd hn (not_needs hcall k)⟩
    rw [hcall] at hc
    cases hc
  unfold Engine.startComposite
  rw [show (e.addJob .lookup : JobId × Engine ν α) = (e.jobs.size, e₁) from rfl]
  dsimp only
  split
  · exact hadd (hfail _)
  · exact hadd (hfail _)
  · split
    · exact hadd (hfail _)
    · exact hadd (startAttempt (e := e₁) hs hd hlt hends (not_needs hnone) _)

/-- Whatever turn a call goes on with. -/
theorem perform (h : e.Able [.destroyBuffer]) (hc : e.call? j = some c) {t : Turn ν α} (ht : t.job? = some j)
    (hp : t.endsAttempt j = false → e.Poised j c)
    (hover : t.endsAttempt j = true → e.ends j = 0 ∧ c.phase.isOver = true ∧ c.held = []) :
    e.Works j (e.perform t) := by
  have hd := h.pool.destroys (List.mem_singleton_self _)
  have hdeliver {e' : Engine ν α} (hb : e.Bystands e') (hpool : e'.pool = e.pool) (hp : e.Poised j c) :
      e.Works j e' := by
    refine (hb.skips j).works (only hc hp) ?_ ?_
    all_goals rw [hpool]
    · exact .refl _
    · exact fun _ => id
  cases t with
  | pipelineArrived job index result =>
    cases ht
    exact pipelineArrived hc (hp rfl) index result
  | planReady job result =>
    cases ht
    exact planReady h.pool.sound hd hc (hp rfl) result
  | planned job =>
    cases ht
    exact planned h hc (hp rfl)
  | collected job token outcome =>
    cases ht
    exact hdeliver (collected_bystands e j token outcome) (pass_pool ..) (hp rfl)
  | drained job token outcome =>
    cases ht
    exact hdeliver (drained_bystands e j token outcome) (drained_pool ..) (hp rfl)
  | resumed job token outcome =>
    cases ht
    exact resumed h.pool.sound hd hc (hp rfl) token outcome
  | attemptEnded job result =>
    cases ht
    obtain ⟨hends, hover, hheld⟩ := hover (beq_self_eq_true j)
    exact attemptEnded h.pool.sound hd hc hends hover hheld result
  | buildUngated | buildEnded | scopesClosed | workDone | mapped | rejected | finished | reported | lossSeen =>
      cases ht

end

end Works

theorem move_works [Measure ν] [Channel α] [Stored α] [Transfer α] (h : e.Able [.destroyBuffer]) (htidy : e.Tidy)
    (hp : ∀ c, e.call? j = some c → e.Poised j c) {m : Move ν α} (hw : e.WorksFor m j) : e.Works j (e.move m) := by
  have hd := h.pool.destroys (List.mem_singleton_self _)
  rcases hw with ⟨⟨layers, options, verifies, rfl⟩, rfl⟩ | ⟨hsome, t, htakes, hjob⟩
  · show e.Works e.jobs.size (e.apply (.composite layers options verifies)).2
    unfold apply
    split
    · exact .refl hp
    · exact .startComposite htidy h.pool.sound hd layers options verifies
  · obtain ⟨c, hc⟩ := Option.isSome_iff_exists.mp hsome
    have hpoised := hp c hc
    rcases e.move_cases m with ⟨op, rfl⟩ | ⟨t', delay, rest, htakes', hperm, heq⟩ | ⟨hnone, -⟩
    · exact htakes.elim
    · obtain rfl : t' = t := htakes'.unique htakes
      let e₁ : Engine ν α := { e with turns := rest }
      have hends := ends_take hperm j
      have hable : e₁.Able [.destroyBuffer] := ⟨h.pool, h.sorted⟩
      have hperform : e₁.Works j (e₁.perform t') := by
        refine .perform hable hc hjob (fun hlast => ?_) fun hlast => ?_
        · rw [hlast] at hends
          exact hpoised.later hends.symm (fun _ rec hrec => ⟨rec, hrec, rfl⟩) (.refl _)
        · -- An attempt ends once, so nothing else is about to end it.
          rw [hlast, hpoised.ends] at hends
          cases hover : c.phase.isOver with
          | false =>
            rw [hover] at hends
            cases hends
          | true =>
            rw [hover] at hends
            exact ⟨(Nat.succ.inj hends).symm, rfl, hpoised.held hover⟩
      rw [heq]
      exact hperform.after (.refl _) (fun _ => id) fun _ => Iff.rfl
    · exact absurd htakes (hnone t)

end Engine

end Strata
