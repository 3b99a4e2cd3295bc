import Strata.Engine.Operation

/-!
# Arrays of the host

Downloads are read into outputs of plans and into arrays that callers have made. Reading one changes the start of
one array (`contents_fill`) and no other (`contents_fill_of_ne`); arrays that are added leave the others as they
are.
-/

namespace Strata.Engine

variable {ν α : Type}

theorem size_overwrite (old values : Array α) : (overwrite old values).size = max values.size old.size := by
  unfold overwrite
  rw [Array.size_append, Array.size_extract]
  omega

theorem prefix_overwrite (old values : Array α) : values.toList <+: (overwrite old values).toList := by
  unfold overwrite
  rw [Array.toList_append]
  exact List.prefix_append ..

theorem overwrite_of_size_le {old values : Array α} (h : old.size ≤ values.size) :
    overwrite old values = values := by
  unfold overwrite
  rw [Array.extract_empty_of_size_le_start h, Array.append_empty]

/-! ## Reading -/

/-- What is read are the channels at the start of a buffer, and there is room for them. -/
theorem readMapped_ok [Measure ν] [Zero α] [Stored α] {block : Block α} {bytes : ν} {room : Nat} {values : Array α}
    (h : readMapped block bytes room = .ok values) : ∃ length, Measure.toLength? bytes = some length ∧
      length % 4 = 0 ∧ length / 4 ≤ room ∧ values = Array.ofFn (n := length / 4) fun i => block.channelAt i := by
  unfold readMapped at h
  split at h
  · cases h
  · rename_i length hlength
    split at h
    · cases h
    · rename_i hroom
      cases h
      exact ⟨length, hlength, by omega, by omega, rfl⟩

variable (e : Engine ν α)

theorem room_output {plan : PlanId} {rec : PlanRecord ν α} (h : e.plans[plan]? = some rec) :
    e.room (.output plan) = rec.plan.outputLength := by
  unfold room
  dsimp only
  rw [h]
  rfl

/-! ## Filling -/

theorem plans_fill (a : HostArray) (values : Array α) (i : Nat) : (e.fill a values).plans[i]? =
    if a = .output i then e.plans[i]?.map fun r => { r with filled := overwrite r.filled values } else
    e.plans[i]? := by
  unfold fill
  cases a with
  | output plan => simp only [Array.getElem?_modify, HostArray.output.injEq]
  | made id => exact (if_neg nofun).symm

theorem plan_fill (a : HostArray) (values : Array α) {i : PlanId} {rec : PlanRecord ν α}
    (h : e.plans[i]? = some rec) : ∃ rec', (e.fill a values).plans[i]? = some rec' ∧ rec'.plan = rec.plan := by
  rw [plans_fill]
  split
  · rw [h]
    exact ⟨_, rfl, rfl⟩
  · exact ⟨rec, h, rfl⟩

theorem arrays_fill (a : HostArray) (values : Array α) (i : Nat) : (e.fill a values).arrays[i]? =
    if a = .made i then e.arrays[i]?.map (overwrite · values) else e.arrays[i]? := by
  unfold fill
  cases a with
  | output plan => exact (if_neg nofun).symm
  | made id => simp only [Array.getElem?_modify, HostArray.made.injEq]

theorem contents_fill_of_ne {a b : HostArray} (h : a ≠ b) (values : Array α) :
    (e.fill a values).contents b = e.contents b := by
  unfold contents
  cases b with
  | output plan =>
    dsimp only
    rw [plans_fill, if_neg h]
  | made id =>
    dsimp only
    rw [Array.getD_eq_getD_getElem?, Array.getD_eq_getD_getElem?, arrays_fill, if_neg h]

theorem contents_fill {a : HostArray} {values : Array α} (h : values.size ≤ e.room a) :
    values.toList <+: ((e.fill a values).contents a).toList := by
  -- an array that is not there has no room
  have hempty (hroom : e.room a = 0) : values = #[] := Array.eq_empty_of_size_eq_zero (Nat.le_zero.mp (hroom ▸ h))
  unfold room at hempty
  unfold contents
  cases a with
  | output plan =>
    dsimp only at hempty ⊢
    rw [plans_fill, if_pos rfl]
    cases hrec : e.plans[plan]? with
    | none =>
      rw [hempty (by rw [hrec]; rfl)]
      exact List.nil_prefix
    | some rec => exact prefix_overwrite rec.filled values
  | made id =>
    dsimp only at hempty ⊢
    rw [Array.getD_eq_getD_getElem?] at hempty ⊢
    rw [arrays_fill, if_pos rfl]
    cases hold : e.arrays[id]? with
    | none =>
      rw [hempty (by rw [hold]; rfl)]
      exact List.nil_prefix
    | some old => exact prefix_overwrite old values

/-! ## Arrays that are added -/

theorem contents_addPlan (plan : Plan ν α) (a : HostArray) : (e.addPlan plan).2.contents a = e.contents a := by
  cases a with
  | made id => rfl
  | output i =>
    unfold contents addPlan
    dsimp only
    rw [Array.getElem?_push]
    split
    · rename_i heq
      rw [heq, Array.getElem?_eq_none (Nat.le_refl _)]
      rfl
    · rfl

theorem contents_makeArray (values : Array α) (a : HostArray) :
    (e.contents a).toList <+: (({ e with arrays := e.arrays.push values } : Engine ν α).contents a).toList := by
  cases a with
  | output plan => exact List.prefix_refl _
  | made i =>
    unfold contents
    dsimp only
    rw [Array.getD_eq_getD_getElem?, Array.getD_eq_getD_getElem?, Array.getElem?_push]
    split
    · rename_i heq
      rw [heq, Array.getElem?_eq_none (Nat.le_refl _)]
      exact List.nil_prefix
    · exact List.prefix_refl _

end Strata.Engine
