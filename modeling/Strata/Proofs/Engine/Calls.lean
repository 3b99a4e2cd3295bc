import Strata.Engine.Compositing

/-!
# Calls under way

How the calls of an engine are found and replaced, whatever they stand at, and which slots they need.
-/

namespace Strata

variable {ν α : Type}

def AttemptPhase.plan? : AttemptPhase ν α → Option PlanId
  | .planned (.ok plan) | .draining plan _ => some plan
  | _ => none

namespace Engine

/-- Slots that a call needs until it ends. -/
def claims (e : Engine ν α) (c : CompositeCall ν α) : List Handle :=
  c.held ++ c.phase.plan?.toList.flatMap e.ownedBy

variable {e : Engine ν α} {j : JobId} {c : CompositeCall ν α}

theorem call?_eq : e.call? j = some c ↔ e.jobs[j]? = some (.composite c) := by
  unfold call?
  cases e.jobs[j]? with
  | none => simp
  | some job => cases job <;> simp

theorem lt_of_call? (h : e.call? j = some c) : j < e.jobs.size := by
  obtain ⟨hlt, -⟩ := Array.getElem?_eq_some_iff.mp (call?_eq.mp h)
  exact hlt

theorem call?_setCall (e : Engine ν α) (j : JobId) (c : CompositeCall ν α) (i : JobId) :
    (e.setCall j c).call? i = if i = j ∧ j < e.jobs.size then some c else e.call? i := by
  unfold setCall setJob call?
  dsimp only
  rw [Array.getElem?_setIfInBounds]
  by_cases hij : j = i
  · subst hij
    by_cases hlt : j < e.jobs.size
    · rw [if_pos rfl, if_pos hlt, if_pos ⟨rfl, hlt⟩]
    · rw [if_pos rfl, if_neg hlt, if_neg fun h => hlt h.2, Array.getElem?_eq_none (Nat.not_lt.mp hlt)]
  · rw [if_neg hij, if_neg fun h => hij h.1.symm]

theorem call?_setCall_self (hj : j < e.jobs.size) (c : CompositeCall ν α) : (e.setCall j c).call? j = some c := by
  rw [call?_setCall, if_pos ⟨rfl, hj⟩]

theorem setCall_setCall (e : Engine ν α) (j : JobId) (c c' : CompositeCall ν α) :
    (e.setCall j c).setCall j c' = e.setCall j c' := by
  unfold setCall setJob
  dsimp only
  rw [Array.setIfInBounds_setIfInBounds]

theorem setPlanning_eq (hc : e.call? j = some c) (p : Planning ν α) :
    e.setPlanning j p = e.setCall j { c with phase := .planning p } := by
  unfold setPlanning
  rw [call?_eq.mp hc]
  rfl

theorem planMade_eq (hc : e.call? j = some c) (result : Except Failure PlanId) :
    e.planMade j result = (e.setCall j { c with phase := .planned result }).schedule 1 (.planned j) := by
  unfold planMade
  rw [call?_eq.mp hc]
  rfl

theorem beginPlanning_ok [Measure ν] {stack : List (BlendDescriptor ν α)} {uploads : List (Upload α)}
    {p : Planning ν α} (h : (e.beginPlanning j stack uploads).1 = .ok p) :
    ∃ draft, Draft.check e.pool.arena e.capabilities e.cache.library stack uploads = .ok draft ∧
      p = ⟨draft, draft.steps.map fun _ => none, false⟩ := by
  unfold beginPlanning at h
  split at h
  · cases h
  · rename_i draft hdraft
    cases h
    exact ⟨draft, hdraft, rfl⟩

theorem beginPlanning_error [Measure ν] {stack : List (BlendDescriptor ν α)} {uploads : List (Upload α)}
    {failure : Failure} {e' : Engine ν α} (h : e.beginPlanning j stack uploads = (.error failure, e')) :
    e' = e := by
  unfold beginPlanning at h
  split at h
  · cases h
    rfl
  · cases h

theorem leave_eq [Measure ν] (hc : e.call? j = some c) (owned : List Handle)
    (result : Except Failure (Raster ν α)) :
    e.leave j owned result =
      ({ e with pool := (e.pool.releaseLive (c.held ++ owned)).2 }.setCall j
        { c with held := [], phase := .ended }).schedule 1
        (.attemptEnded j ((e.pool.releaseLive (c.held ++ owned)).endWith result).1) := by
  unfold leave
  rw [hc]
  dsimp only
  generalize e.pool.releaseLive (c.held ++ owned) = r
  obtain ⟨r, pool⟩ := r
  cases r <;> rfl

theorem leave_setCall [Measure ν] (hj : j < e.jobs.size) (c : CompositeCall ν α)
    (result : Except Failure (Raster ν α)) :
    (e.setCall j c).leave j [] result =
      ({ e with pool := (e.pool.releaseLive c.held).2 }.setCall j { c with held := [], phase := .ended }).schedule 1
        (.attemptEnded j ((e.pool.releaseLive c.held).endWith result).1) := by
  rw [leave_eq (call?_setCall_self hj c), List.append_nil]
  exact congrArg (Engine.schedule · 1 _) (setCall_setCall { e with pool := (e.pool.releaseLive c.held).2 } j c _)

theorem exists_of_all_isSome {β : Type} {l : List (Option β)} (h : l.all Option.isSome = true) :
    l = (l.filterMap id).map some := by
  induction l with
  | nil => rfl
  | cons x l ih =>
    rw [List.all_cons, Bool.and_eq_true] at h
    cases x with
    | none => cases h.1
    | some x => exact congrArg (List.cons _) (ih h.2)

end Engine

end Strata
