import Strata.Proofs.Color.Bits
import Strata.Proofs.Engine.Moves
import Strata.Proofs.Engine.Submitting
import Strata.Proofs.Plan.Checks

/-!
# Refused submissions

A submission takes its references one by one and gives them back if a handle is stale. `Arena.holding` is an arena
with some references more: taking the next one and dropping the first both lead from such an arena to such an arena,
so what was taken is given back exactly (`acquireAll_stale`), and a plan that is refused leaves nothing behind
(`refused_submit_changes_nothing`).
-/

namespace Strata

variable {ν α : Type}

def Slot.hold (s : Slot ν) (n : Nat) : Slot ν :=
  match s.occupancy with
  | .live c => { s with occupancy := .live { c with refs := c.refs + n } }
  | .released c => { s with occupancy := .released { c with refs := c.refs + n } }
  | .free => s

@[simp] theorem Slot.hold_zero (s : Slot ν) : s.hold 0 = s := by
  obtain ⟨generation, occupancy, backing⟩ := s
  cases occupancy <;> rfl

@[simp] theorem Slot.generation_hold (s : Slot ν) (n : Nat) : (s.hold n).generation = s.generation := by
  unfold Slot.hold
  split <;> rfl

@[simp] theorem Slot.backing_hold (s : Slot ν) (n : Nat) : (s.hold n).backing = s.backing := by
  unfold Slot.hold
  split <;> rfl

namespace Arena

/-- An arena with one more reference for each of some handles. -/
def holding (a : Arena ν) (taken : List Handle) : Arena ν :=
  { a with slots := a.slots.mapIdx fun i s => s.hold (taken.countP (·.index == .number i)) }

variable (a : Arena ν) (taken : List Handle)

@[simp] theorem size_holding : (a.holding taken).slots.size = a.slots.size := Array.size_mapIdx ..

theorem slotAt_holding (i : Nat) :
    (a.holding taken).slotAt i = (a.slotAt i).hold (taken.countP (·.index == .number i)) := by
  unfold slotAt holding
  simp only [Array.getD_eq_getD_getElem?, Array.getElem?_mapIdx]
  cases a.slots[i]? <;> rfl

@[simp] theorem holding_nil : a.holding [] = a := by
  have hslots : (a.slots.mapIdx fun i s => s.hold (([] : List Handle).countP (·.index == .number i))) =
      a.slots := by
    refine Array.ext Array.size_mapIdx fun i _ _ => ?_
    rw [Array.getElem_mapIdx, List.countP_nil, Slot.hold_zero]
  unfold holding
  rw [hslots]

@[simp] theorem position?_holding (h : Handle) : (a.holding taken).position? h = a.position? h := by
  unfold position? holding
  dsimp only
  split
  · rename_i i generation _ _
    rw [Array.getElem?_mapIdx]
    cases a.slots[i]? with
    | none => rfl
    | some slot => simp only [Option.map_some, Slot.generation_hold]
  · rfl

theorem locate_holding (h : Handle) : (a.holding taken).locate h = a.locate h := by
  unfold locate
  rw [position?_holding]
  cases a.position? h with
  | none => rfl
  | some i =>
    dsimp only
    rw [slotAt_holding]
    obtain ⟨generation, occupancy, backing⟩ := a.slotAt i
    cases occupancy <;> cases backing <;> rfl

/-- A change of one slot that adds references to it, or takes some away. -/
theorem modifySlot_holding {taken' : List Handle} {i : Nat} {f : Slot ν → Slot ν}
    (hself : ∀ s : Slot ν, f (s.hold (taken.countP (·.index == .number i))) =
      s.hold (taken'.countP (·.index == .number i)))
    (hother : ∀ j ≠ i, taken'.countP (·.index == .number j) = taken.countP (·.index == .number j)) :
    (a.holding taken).modifySlot i f = a.holding taken' := by
  have hslots : (a.slots.mapIdx fun j s => s.hold (taken.countP (·.index == .number j))).modify i f =
      a.slots.mapIdx fun j s => s.hold (taken'.countP (·.index == .number j)) := by
    refine Array.ext (by simp) fun j _ _ => ?_
    rw [Array.getElem_modify, Array.getElem_mapIdx, Array.getElem_mapIdx]
    split
    · rename_i hij
      subst hij
      exact hself _
    · rename_i hij
      rw [hother j (Ne.symm hij)]
  unfold modifySlot holding
  dsimp only
  rw [hslots]

variable {a taken} {i : Nat} {h : Handle} {ref : SlotRef ν}

theorem retain_holding (hi : h.index = .number i) : (a.holding taken).retain i = a.holding (taken ++ [h]) := by
  refine modifySlot_holding a taken (fun s => ?_) fun j hj => ?_
  · obtain ⟨generation, occupancy, backing⟩ := s
    rw [List.countP_append, List.countP_singleton, hi, BEq.rfl, if_pos rfl]
    cases occupancy <;> rfl
  · rw [List.countP_append, List.countP_singleton, hi, if_neg (by simpa using Ne.symm hj)]
    rfl

theorem dropRef_holding (hi : h.index = .number i) : (a.holding (h :: taken)).dropRef i = a.holding taken := by
  refine modifySlot_holding a (h :: taken) (fun s => ?_) fun j hj => ?_
  · obtain ⟨generation, occupancy, backing⟩ := s
    rw [List.countP_cons, hi, BEq.rfl, if_pos rfl]
    cases occupancy <;> rfl
  · rw [List.countP_cons, hi, if_neg (by simpa using Ne.symm hj)]
    rfl

theorem index_of_locate (hl : a.locate h = .ok (i, ref)) :
    h.index = .number i ∧ a.position? h = some i ∧ ∃ c, (a.slotAt i).occupancy = .live c := by
  obtain ⟨rfl, c, b, hc, -⟩ := locate_eq_ok.mp hl
  have hlt : i < a.slots.size := lt_size_of_occupied (by rw [hc]; exact nofun)
  exact ⟨rfl, position?_eq_some.mpr ⟨hlt, rfl⟩, c, hc⟩

end Arena

namespace Pool

variable [Measure ν] (p : Pool ν α)

/-- A pool with one more reference for each of some handles. -/
def holding (taken : List Handle) : Pool ν α := { p with arena := p.arena.holding taken }

variable {p} {taken : List Handle} {h : Handle} {i : Nat} {ref : SlotRef ν}

omit [Measure ν] in
theorem acquire_holding (hl : p.arena.locate h = .ok (i, ref)) :
    (p.holding taken).acquire h = (.ok ref, p.holding (taken ++ [h])) := by
  unfold acquire holding
  dsimp only
  rw [Arena.locate_holding, hl, ← Arena.retain_holding (Arena.index_of_locate hl).1]

theorem relinquish_holding (hl : p.arena.locate h = .ok (i, ref)) :
    (p.holding (h :: taken)).relinquish h = (.ok (), p.holding taken) := by
  obtain ⟨hi, hposition, c, hc⟩ := Arena.index_of_locate hl
  -- The slot is live, so giving the reference back does not free it.
  have hspent : (p.arena.holding taken).isSpent i = false := by
    unfold Arena.isSpent
    rw [Arena.slotAt_holding]
    unfold Slot.hold
    rw [hc]
  unfold relinquish holding
  dsimp only
  rw [Arena.position?_holding, hposition]
  dsimp only
  rw [Arena.dropRef_holding hi]
  unfold reclaimSpent
  rw [hspent]
  rfl

theorem each_relinquish_holding (taken : List Handle)
    (hl : ∀ h ∈ taken, ∃ r, p.arena.locate h = .ok r) :
    Attempt.each relinquish (p.holding taken) taken = (.ok (), p) := by
  induction taken with
  | nil =>
    show ((.ok (), p.holding []) : Attempt Failure (Pool ν α) Unit) = _
    unfold holding
    rw [Arena.holding_nil]
  | cons h taken ih =>
    obtain ⟨⟨i, ref⟩, hloc⟩ := hl h (List.mem_cons_self ..)
    show ((p.holding (h :: taken)).relinquish h).andThen _ = _
    rw [relinquish_holding hloc]
    exact ih fun k hk => hl k (List.mem_cons_of_mem _ hk)

end Pool

namespace Engine

/-- The first of some handles that leads to no live slot. -/
def stale? (a : Arena ν) (handles : List Handle) : Option Handle := handles.find? fun h => !(a.resolve h).isOk

theorem stale?_cons_of_ok {a : Arena ν} {h : Handle} {i : Nat} {ref : SlotRef ν} (hl : a.locate h = .ok (i, ref))
    (rest : List Handle) : stale? a (h :: rest) = stale? a rest := by
  have hok : (a.resolve h).isOk = true := by
    unfold Arena.resolve
    rw [hl]
    rfl
  unfold stale?
  rw [List.find?_cons, hok]
  rfl

theorem stale?_cons_of_error {a : Arena ν} {h : Handle} {failure : Failure} (hl : a.locate h = .error failure)
    (rest : List Handle) : stale? a (h :: rest) = some h ∧ failure = .of (.staleHandle h) := by
  have hresolve : a.resolve h = .error failure := by
    unfold Arena.resolve
    rw [hl]
    rfl
  refine ⟨?_, Arena.resolve_stale hresolve⟩
  unfold stale?
  rw [List.find?_cons, hresolve]
  rfl

variable [Measure ν]

/-- References are taken to all handles, or a stale one makes the submission give all of them back. -/
theorem acquireAll_eq (p : Pool ν α) (taken handles : List Handle)
    (hl : ∀ h ∈ taken, ∃ r, p.arena.locate h = .ok r) :
    acquireAll (p.holding taken.reverse) taken handles = match stale? p.arena handles with
      | some h => (.error (.of (.staleHandle h)), p)
      | none => (.ok (), p.holding (taken.reverse ++ handles)) := by
  induction handles generalizing taken with
  | nil => simp [acquireAll, stale?]
  | cons h rest ih =>
    unfold acquireAll
    cases hloc : p.arena.locate h with
    | ok r =>
      obtain ⟨i, ref⟩ := r
      rw [Pool.acquire_holding hloc, stale?_cons_of_ok hloc]
      dsimp only
      have hnext := ih (h :: taken) fun k hk => (List.mem_cons.mp hk).elim (fun hk => hk ▸ ⟨_, hloc⟩) (hl k)
      rw [List.reverse_cons] at hnext
      rw [hnext, List.append_assoc]
      rfl
    | error failure =>
      obtain ⟨hstale, rfl⟩ := stale?_cons_of_error hloc rest
      have hacquire : (p.holding taken.reverse).acquire h = (.error (.of (.staleHandle h)),
          p.holding taken.reverse) := by
        unfold Pool.acquire Pool.holding
        dsimp only
        rw [Arena.locate_holding, hloc]
      rw [hacquire, hstale]
      dsimp only
      rw [Pool.each_relinquish_holding _ fun k hk => hl k (List.mem_reverse.mp hk)]
      rfl

/-! ## Refusals -/

variable [Channel α] [Stored α] [Transfer α]

/-- Why a plan is refused, if it is: the session has ended, the plan was submitted before, or one of its handles
leads to no live slot. -/
def refusal? (e : Engine ν α) (id : PlanId) (plan : Plan ν α) : Option Failure :=
  match e.session.phase with
  | .lost => some (.of .deviceLost)
  | .destroyed => some (.of (.sessionDestroyed .validation))
  | .ready =>
    if id ∈ e.session.consumed then some (.of .alreadySubmitted)
    else (stale? e.pool.arena (plan.stages.flatMap Stage.handles)).map fun h => .of (.staleHandle h)

/-- A plan is refused exactly for one of these reasons, and then nothing has changed: no slot, no reference, no free
slot or count of bytes of the arena, no submission, token or consumed plan of the session, nothing that the delivery
keeps, and no error scope. Whatever else makes a submission fail, the device did when an error scope was pushed. -/
theorem refused_submit_changes_nothing {e : Engine ν α} {id : PlanId} {record : PlanRecord ν α}
    (hplan : e.plans[id]? = some record) :
    (∀ failure, e.refusal? id record.plan = some failure → e.submit id = (.error failure, e)) ∧
    ∀ failure e', e.submit id = (.error failure, e') → e.refusal? id record.plan = some failure ∧ e' = e ∨
      e.refusal? id record.plan = none ∧ ∃ raised, (pushScopes e.pool.device).1 = .error raised := by
  have hacquire := acquireAll_eq e.pool [] (record.plan.stages.flatMap Stage.handles) nofun
  have hstart : e.pool.holding ([] : List Handle).reverse = e.pool := by
    show ({ e.pool with arena := e.pool.arena.holding [] } : Pool ν α) = _
    rw [Arena.holding_nil]
  rw [hstart] at hacquire
  have hrefused (failure : Failure) (h : e.refusal? id record.plan = some failure) :
      e.submit id = (.error failure, e) := by
    unfold refusal? at h
    unfold submit Session.checkUsable
    rw [hplan]
    cases hphase : e.session.phase with
    | lost =>
      rw [hphase] at h
      cases h
      rfl
    | destroyed =>
      rw [hphase] at h
      cases h
      rfl
    | ready =>
      rw [hphase] at h
      dsimp only at h ⊢
      split at h
      · rename_i hconsumed
        rw [if_pos hconsumed]
        cases h
        rfl
      · rename_i hfresh
        obtain ⟨h, hstale, rfl⟩ := Option.map_eq_some_iff.mp h
        rw [if_neg hfresh, hacquire, hstale]
  refine ⟨hrefused, fun failure e' h => ?_⟩
  cases hr : e.refusal? id record.plan with
  | some reason =>
    rw [hrefused reason hr] at h
    cases h
    exact .inl ⟨rfl, rfl⟩
  | none =>
    refine .inr ⟨rfl, ?_⟩
    unfold refusal? at hr
    cases hphase : e.session.phase with
    | lost => rw [hphase] at hr; cases hr
    | destroyed => rw [hphase] at hr; cases hr
    | ready =>
      rw [hphase] at hr
      dsimp only at hr
      split at hr
      · cases hr
      · rename_i hfresh
        rw [Option.map_eq_none_iff.mp hr] at hacquire
        cases hscopes : pushScopes e.pool.device with
        | mk r device =>
          cases r with
          | error raised => exact ⟨raised, rfl⟩
          | ok u =>
            have haccepts : e.Accepts id record _ device := ⟨hphase, hplan, hfresh, hacquire, hscopes⟩
            rw [haccepts.submit] at h
            cases h

/-- A plan that names a slot twice, and then one that was released. -/
theorem refused_submit_changes_nothing_stale :
    let device : Device Int Bool := { limits := .standard }
    let h : Handle := ⟨.number 0, .number 0⟩
    let gone : Handle := ⟨.number 1, .number 0⟩
    let plan : Plan Int Bool :=
        ⟨[.upload h ⟨0, #[]⟩, .barrier, .upload h ⟨0, #[]⟩, .upload gone ⟨0, #[]⟩], [], 1, 1, 0⟩
    let start : Engine Int Bool := { bare device {} with
      pool := ⟨{ options := ({} : EngineOptions Int).arena "Session" }, device⟩
      config := Config.standard.update {}
      supervised := true }
    let e := start.run [.call (.allocate .params 32), .call (.allocate .params 32), .call (.release gone),
      .call (.takePlan plan)]
    e.plans[0]? = some ⟨plan, #[]⟩ ∧ e.pool.arena.contains h = true ∧
      e.refusal? 0 plan = some (.of (.staleHandle gone)) ∧ e.submit 0 = (.error (.of (.staleHandle gone)), e) := by
  intro device h gone plan start e
  have hplan : e.plans[0]? = some ⟨plan, #[]⟩ := rfl
  have hrefused : e.refusal? 0 plan = some (.of (.staleHandle gone)) := by decide
  exact ⟨hplan, by decide, hrefused, (refused_submit_changes_nothing hplan).1 _ hrefused⟩

end Engine

end Strata
