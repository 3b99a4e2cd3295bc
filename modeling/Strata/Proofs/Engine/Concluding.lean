import Strata.Proofs.Engine.Aborting

/-!
# What attempts come to

An attempt fails at once (`FailsAtOnce`), or goes on until it comes to its result (`Concludes`). Then it is about to
end with that result and no other (`EndsWith`). Nothing else ends an attempt of a call that cannot be aborted
(`endsWith_iff`).
-/

namespace Strata.Engine

variable {ν α : Type} [Measure ν] {B : Books ν α} {e e' : Engine ν α} {m : Move ν α} {j : JobId} {t : SubmissionId}
  {failure : Failure} {c : CompositeCall ν α} {result result' : Except Failure (Raster ν α)}

/-! ## Attempts that end -/

/-- The attempt of a call is about to end with the result. -/
def EndsWith (e : Engine ν α) (j : JobId) (result : Except Failure (Raster ν α)) : Prop :=
  .attemptEnded j result ∈ e.turns.map (·.2)

def Attempting (e : Engine ν α) (j : JobId) : Prop := ∃ c, e.call? j = some c ∧ c.phase.isOver = false

section
omit [Measure ν]

theorem Takes.endsWith (h : e.Takes m (.attemptEnded j result)) : e.EndsWith j result := by
  obtain ⟨delay, hdue⟩ := h.mem
  exact List.mem_map_of_mem hdue

theorem EndsWith.pos (h : e.EndsWith j result) : 0 < e.turns.countP (·.2.endsAttempt j) := by
  obtain ⟨x, hx, heq⟩ := List.mem_map.mp h
  exact List.countP_pos_iff.mpr ⟨x, hx, by rw [heq]; exact beq_self_eq_true j⟩

theorem EndsWith.unique (h : e.EndsWith j result) (h' : e.EndsWith j result') (hends : e.ends j ≤ 1) :
    result = result' := by
  obtain ⟨x, hx, heq⟩ := List.mem_map.mp h
  obtain ⟨y, hy, heq'⟩ := List.mem_map.mp h'
  have hlength : (e.turns.filter (·.2.endsAttempt j)).length ≤ 1 := by
    unfold ends at hends
    rw [← List.countP_eq_length_filter]
    omega
  have hmem {x : Nat × Turn ν α} {result : Except Failure (Raster ν α)} (hx : x ∈ e.turns)
      (heq : x.2 = .attemptEnded j result) : x ∈ e.turns.filter (·.2.endsAttempt j) :=
    List.mem_filter.mpr ⟨hx, by rw [heq]; exact beq_self_eq_true j⟩
  have hlone : (e.turns.filter (·.2.endsAttempt j)).length = 1 :=
    Nat.le_antisymm hlength (List.length_pos_of_mem (hmem hx heq))
  obtain ⟨z, hz⟩ := List.length_eq_one_iff.mp hlone
  obtain rfl : x = z := List.mem_singleton.mp (hz ▸ hmem hx heq)
  obtain rfl : y = x := List.mem_singleton.mp (hz ▸ hmem hy heq')
  cases heq.symm.trans heq'
  rfl

end

theorem EndsWith.over (h : e.EndsWith j result) (ht : e.Tended B) (hc : e.call? j = some c) :
    c.phase.isOver = true := by
  have hpos := h.pos
  have hends := (ht.poised j c hc).ends
  unfold ends at hends
  cases hover : c.phase.isOver with
  | true => rfl
  | false =>
    rw [hover, if_neg Bool.false_ne_true] at hends
    omega

theorem EndsWith.unsettled (h : e.EndsWith j result) (ht : e.Tended B) (hc : e.call? j = some c)
    (answer : Except Failure (JobValue ν α)) : (j, answer) ∉ e.settled := by
  intro hmem
  have hpos := h.pos
  have hpos' : 0 < e.settled.countP (·.1 == j) := List.countP_pos_iff.mpr ⟨_, hmem, beq_self_eq_true j⟩
  have hends := ht.ends_le hc
  unfold ends at hends
  omega

variable [Channel α] [Stored α] [Transfer α]

/-! ## Attempts -/

/-- An attempt fails before it has a plan to wait for. -/
inductive FailsAtOnce (e : Engine ν α) (c : CompositeCall ν α) : Failure → Prop
  | unusable {failure : Failure} (session : e.session.checkUsable = .error failure) : FailsAtOnce e c failure
  | source {failure : Failure} (session : e.session.checkUsable = .ok ())
      (refused : (allocateSources e.pool c.layers).1 = .error failure) : FailsAtOnce e c failure
  | destination {failure : Failure} {base : Layer ν α} {sources : List Handle} {pool : Pool ν α}
      (session : e.session.checkUsable = .ok ()) (bottom : c.layers.head? = some base)
      (allocated : allocateSources e.pool c.layers = (.ok (), sources, pool))
      (refused : (pool.allocate (.image .readback .float32 base.raster.width base.raster.height)
        (workingBytes base.raster.width base.raster.height)).1 = .error failure) : FailsAtOnce e c failure
  | stack {failure : Failure} {base : Layer ν α} {sources : List Handle} {pool pool' : Pool ν α}
      {destination : Handle} (session : e.session.checkUsable = .ok ()) (bottom : c.layers.head? = some base)
      (allocated : allocateSources e.pool c.layers = (.ok (), sources, pool))
      (destined : pool.allocate (.image .readback .float32 base.raster.width base.raster.height)
        (workingBytes base.raster.width base.raster.height) = (.ok destination, pool'))
      (refused : stackOf destination c.layers sources = .error failure) : FailsAtOnce e c failure

omit [Channel α] [Stored α] [Transfer α] in
theorem leave_due (ha : e.pool.Able [.destroyBuffer]) (hc : e.call? j = some c) (owned : List Handle)
    (result : Except Failure (Raster ν α)) : (e.leave j owned result).EndsWith j result := by
  obtain ⟨pool, heq⟩ := leave_ends ha.sound (ha.destroys (List.mem_singleton_self _)) hc owned result
  rw [heq]
  exact List.mem_map_of_mem (List.mem_append_right _ (List.mem_singleton_self _))

omit [Stored α] [Transfer α] in
theorem FailsAtOnce.ends (hf : e.FailsAtOnce c failure) (ha : e.pool.Able [.destroyBuffer]) (hj : j < e.jobs.size)
    (hlayers : c.layers ≠ []) : (e.startAttempt j c).EndsWith j (.error failure) := by
  have hleave {pool : Pool ν α} (hp : pool.Able [.destroyBuffer]) (sources : List Handle) (failure : Failure) :
      ((({ e with pool } : Engine ν α).setCall j { c with held := sources }).leave j [] (.error failure)).EndsWith j
        (.error failure) :=
    leave_due (e := ({ e with pool } : Engine ν α).setCall j { c with held := sources }) hp
      (call?_setCall_self (e := { e with pool }) hj _) _ _
  have hsources : (allocateSources e.pool c.layers).2.2.Able [.destroyBuffer] :=
    ha.uses (allocateSources_uses c.layers e.pool)
  obtain ⟨first, rest, hcons⟩ := List.exists_cons_of_ne_nil hlayers
  have hhead : c.layers.head? = some first := by
    rw [hcons]
    rfl
  unfold startAttempt
  rw [hhead]
  -- the cases follow the steps of an attempt, up to the one that fails
  cases hf with
  | unusable hsession =>
    rw [hsession]
    exact List.mem_map_of_mem (List.mem_append_right _ (List.mem_singleton_self _))
  | source hsession hfailed =>
    rw [hsession]
    dsimp only
    generalize allocateSources e.pool c.layers = r at hsources hfailed
    obtain ⟨r, sources, pool⟩ := r
    cases hfailed
    exact hleave hsources sources failure
  | @destination base sources pool hsession hbottom hallocated hrefused =>
    cases hhead.symm.trans hbottom
    rw [hallocated] at hsources
    have hpool := hsources.uses
      (Pool.Uses.allocate pool (.image .readback .float32 first.raster.width first.raster.height)
      (workingBytes first.raster.width first.raster.height))
    rw [hsession, hallocated]
    dsimp only
    generalize pool.allocate _ _ = r at hpool hrefused
    obtain ⟨r, pool'⟩ := r
    cases hrefused
    exact hleave hpool sources failure
  | @stack base sources pool pool' destination hsession hbottom hallocated hdestined hrefused =>
    cases hhead.symm.trans hbottom
    rw [hallocated] at hsources
    have hpool := hsources.uses
      (Pool.Uses.allocate pool (.image .readback .float32 first.raster.width first.raster.height)
      (workingBytes first.raster.width first.raster.height))
    rw [hdestined] at hpool
    rw [hsession, hallocated]
    dsimp only
    rw [hdestined]
    show (({ e with pool := pool' } : Engine ν α).planAttempt j c destination sources).EndsWith j _
    unfold planAttempt
    dsimp only
    rw [hrefused]
    exact hleave hpool _ failure

omit [Stored α] [Transfer α] in
theorem startAttempt_goes_on (hj : j < e.jobs.size) (hlayers : c.layers ≠ []) :
    (∃ failure, e.FailsAtOnce c failure) ∨ (e.startAttempt j c).Attempting j := by
  obtain ⟨first, rest, hcons⟩ := List.exists_cons_of_ne_nil hlayers
  have hhead : c.layers.head? = some first := by
    rw [hcons]
    rfl
  unfold startAttempt
  rw [hhead]
  cases hsession : e.session.checkUsable with
  | error failure => exact .inl ⟨failure, .unusable hsession⟩
  | ok =>
    dsimp only
    rcases hallocated : allocateSources e.pool c.layers with ⟨_ | _, sources, pool⟩
    · exact .inl ⟨_, .source hsession (congrArg Prod.fst hallocated)⟩
    dsimp only
    rcases hdestined : pool.allocate (.image .readback .float32 first.raster.width first.raster.height)
      (workingBytes first.raster.width first.raster.height) with ⟨_ | destination, pool'⟩
    · exact .inl ⟨_, .destination hsession hhead hallocated (congrArg Prod.fst hdestined)⟩
    dsimp only
    unfold planAttempt
    dsimp only
    cases hstack : stackOf destination c.layers sources with
    | error failure => exact .inl ⟨failure, .stack hsession hhead hallocated hdestined hstack⟩
    | ok stack =>
      let e₁ : Engine ν α := { e with pool := pool' }
      have hjobs := (Aside.beginPlanning e₁ j stack (uploadsOf c.layers sources)).jobs
      refine .inr ?_
      dsimp only
      rcases hplanning : e₁.beginPlanning j stack (uploadsOf c.layers sources) with ⟨_ | p, e₂⟩
      all_goals
        rw [hplanning] at hjobs
        exact ⟨_, call?_setCall_self (hjobs ▸ hj) _, rfl⟩

theorem submit_turns (e : Engine ν α) (turns : List (Nat × Turn ν α)) (plan : PlanId) :
    (({ e with turns } : Engine ν α).submit plan).1 = (e.submit plan).1 := by
  unfold submit
  dsimp only
  split
  · rfl
  · rfl
  · split
    · rfl
    · split
      · rfl
      · rename_i pool _
        unfold execute
        dsimp only
        generalize pushScopes pool.device = r
        obtain ⟨r, device⟩ := r
        cases r <;> rfl

/-- An attempt comes to its result. -/
inductive Concludes (e : Engine ν α) (m : Move ν α) (j : JobId) : Except Failure (Raster ν α) → Prop
  | unplanned {c : CompositeCall ν α} {failure : Failure} (takes : e.Takes m (.planned j))
      (call : e.call? j = some c) (phase : c.phase = .planned (.error failure)) : Concludes e m j (.error failure)
  | refused {c : CompositeCall ν α} {plan : PlanId} {failure : Failure} (takes : e.Takes m (.planned j))
      (call : e.call? j = some c) (phase : c.phase = .planned (.ok plan))
      (unaborted : e.abortReason? c.signal = none)
      (submission : (e.submit plan).1 = .error failure) : Concludes e m j (.error failure)
  | resumed {c : CompositeCall ν α} {plan : PlanId} {t : SubmissionId} {outcome : Outcome} {base : Layer ν α}
      (takes : e.Takes m (.resumed j t outcome)) (call : e.call? j = some c) (phase : c.phase = .draining plan t)
      (bottom : c.layers.head? = some base) : Concludes e m j (outcome.map fun _ =>
        Raster.encode ((e.plans[plan]?.map PlanRecord.output).getD #[]) base.raster.width base.raster.height
          (c.outputFormat.getD base.raster.format))

theorem Concludes.ends (hc : e.Concludes m j result) (h : e.Tended B) : (e.move m).EndsWith j result := by
  have hable : e.Able [.destroyBuffer] := h.life.able.mono (by simp [deliveryCalls])
  cases hc with
  | @unplanned c failure htakes hcall hphase =>
    obtain ⟨delay, rest, -, heq⟩ := htakes.move_eq
    let e₁ : Engine ν α := { e with turns := rest }
    have hcall₁ : e₁.call? j = some c := hcall
    rw [heq]
    show (e₁.planned j).EndsWith j _
    unfold planned
    rw [hcall₁]
    dsimp only
    rw [hphase]
    exact leave_due (e := e₁) hable.pool hcall₁ [] _
  | @refused c plan failure htakes hcall hphase hunaborted hsubmission =>
    obtain ⟨delay, rest, -, heq⟩ := htakes.move_eq
    let e₁ : Engine ν α := { e with turns := rest }
    have hcall₁ : e₁.call? j = some c := hcall
    have hfails : (e₁.submit plan).1 = .error failure := (submit_turns e rest plan).trans hsubmission
    have hstands : (e₁.submit plan).2.call? j = some c := ((submit_bystands e₁ plan).call? j).trans hcall₁
    have hable₁ : (e₁.submit plan).2.Able [.destroyBuffer] :=
      submit_able (e := e₁) ⟨hable.pool, hable.sorted⟩ plan
    rw [heq]
    show (e₁.planned j).EndsWith j _
    unfold planned
    rw [hcall₁]
    dsimp only
    rw [hphase, show e₁.abortReason? c.signal = none from hunaborted]
    dsimp only
    generalize e₁.submit plan = r at hfails hstands hable₁
    obtain ⟨r, e'⟩ := r
    cases hfails
    exact leave_due hable₁.pool hstands _ _
  | @resumed c plan t outcome base htakes hcall hphase hbottom =>
    obtain ⟨delay, rest, -, heq⟩ := htakes.move_eq
    let e₁ : Engine ν α := { e with turns := rest }
    have hcall₁ : e₁.call? j = some c := hcall
    obtain ⟨base', hbase', hleaves⟩ := resumed_leaves hcall₁ hphase (h.layered j c hcall) outcome
    cases hbottom.symm.trans hbase'
    rw [heq]
    show (e₁.resumed j t outcome).EndsWith j _
    rw [hleaves]
    exact leave_due (e := e₁) hable.pool hcall₁ _ _

/-! ## Attempts that go on -/

omit [Channel α] [Stored α] [Transfer α] [Measure ν] in
theorem pipelineArrived_goes_on (hc : e.call? j = some c) (hopen : c.phase.isOver = false) (index : Nat)
    (result : Except Failure Pipeline) : (e.pipelineArrived j index result).Attempting j := by
  have hset (p : Planning ν α) : (e.setPlanning j p).Attempting j := by
    rw [setPlanning_eq hc]
    exact ⟨_, call?_setCall_self (lt_of_call? hc) _, rfl⟩
  have hsame : e.Attempting j := ⟨c, hc, hopen⟩
  unfold pipelineArrived
  split
  · exact hsame
  · split
    · exact hsame
    · split
      · exact hset _
      · dsimp only
        split <;> exact hset _

omit [Transfer α] in
theorem planReady_goes_on (hc : e.call? j = some c) (hopen : c.phase.isOver = false)
    (result : Except Failure (List Pipeline)) : (e.planReady j result).Attempting j := by
  have hmade (pool : Pool ν α) (plans : Array (PlanRecord ν α)) (result : Except Failure PlanId) :
      (({ e with pool, plans } : Engine ν α).planMade j result).Attempting j := by
    rw [planMade_eq (e := { e with pool, plans }) hc]
    exact ⟨_, call?_setCall_self (e := { e with pool, plans }) (lt_of_call? hc) _, rfl⟩
  unfold planReady
  split
  · exact ⟨c, hc, hopen⟩
  · exact hmade e.pool e.plans _
  · split
    · exact hmade _ e.plans _
    · exact hmade _ _ _

theorem planned_goes_on (hc : e.call? j = some c) (hopen : c.phase.isOver = false) (hsignal : c.signal = none) :
    (∃ failure, c.phase = .planned (.error failure)) ∨
    (∃ plan failure, c.phase = .planned (.ok plan) ∧ (e.submit plan).1 = .error failure) ∨
    (e.planned j).Attempting j := by
  unfold planned
  rw [hc]
  dsimp only
  split
  · rename_i failure hphase
    exact .inl ⟨failure, hphase⟩
  · rename_i plan hphase
    have hstands : (e.submit plan).2.call? j = some c := ((submit_bystands e plan).call? j).trans hc
    rw [hsignal, show e.abortReason? none = none from rfl]
    dsimp only
    rcases hsubmit : e.submit plan with ⟨failure | t, e'⟩
    · exact .inr (.inl ⟨plan, failure, hphase, congrArg Prod.fst hsubmit⟩)
    · rw [hsubmit] at hstands
      have hset (c' : CompositeCall ν α) : (e'.setCall j c').call? j = some c' :=
        call?_setCall_self (lt_of_call? hstands) c'
      exact .inr (.inr ⟨_, ((waitFor_bystands _ j t).call? j).trans (hset _), rfl⟩)
  · exact .inr (.inr ⟨c, hc, hopen⟩)

theorem resumed_goes_on (hc : e.call? j = some c) (hopen : c.phase.isOver = false) (t : SubmissionId)
    (o : Outcome) :
    (∃ plan base, c.phase = .draining plan t ∧ c.layers.head? = some base) ∨ (e.resumed j t o).Attempting j := by
  unfold resumed
  rw [hc]
  dsimp only
  split
  · rename_i plan awaited base hphase hbase
    split
    · rename_i heq
      exact .inl ⟨plan, base, heq ▸ hphase, hbase⟩
    · exact .inr ⟨c, hc, hopen⟩
  · exact .inr ⟨c, hc, hopen⟩

/-- Unless it comes to a result, an attempt of a call that cannot be aborted goes on. -/
theorem move_goes_on (h : e.Tended B) (hc : e.call? j = some c) (hopen : c.phase.isOver = false)
    (hsignal : c.signal = none) : (∃ result, e.Concludes m j result) ∨ (e.move m).Attempting j := by
  by_cases hx : ∃ x, e.Takes m x ∧ x.job? = some j
  · obtain ⟨x, htakes, hjob⟩ := hx
    obtain ⟨delay, rest, -, heq⟩ := htakes.move_eq
    let e₁ : Engine ν α := { e with turns := rest }
    have hc₁ : e₁.call? j = some c := hc
    have hstands {e' : Engine ν α} (hb : e₁.Bystands e') : e'.Attempting j := ⟨c, (hb.call? j).trans hc₁, hopen⟩
    rw [heq]
    show _ ∨ (e₁.perform x).Attempting j
    cases x with
    | pipelineArrived job index result =>
      cases hjob
      exact .inr (pipelineArrived_goes_on hc₁ hopen index result)
    | planReady job result =>
      cases hjob
      exact .inr (planReady_goes_on hc₁ hopen result)
    | planned job =>
      cases hjob
      rcases planned_goes_on hc₁ hopen hsignal with ⟨failure, hphase⟩ | ⟨plan, failure, hphase, hfails⟩ | hopen
      · exact .inl ⟨_, .unplanned htakes hc hphase⟩
      · have hfails' : (e.submit plan).1 = .error failure := (submit_turns e rest plan).symm.trans hfails
        exact .inl ⟨_, .refused htakes hc hphase (by rw [hsignal]; rfl) hfails'⟩
      · exact .inr hopen
    | collected job t o => exact .inr (hstands (collected_bystands e₁ job t o))
    | drained job t o => exact .inr (hstands (drained_bystands e₁ job t o))
    | resumed job t o =>
      cases hjob
      exact (resumed_goes_on hc₁ hopen t o).imp_left fun ⟨plan, base, hphase, hbase⟩ =>
        ⟨_, .resumed htakes hc hphase hbase⟩
    | attemptEnded job result =>
      cases hjob
      rw [htakes.endsWith.over h hc] at hopen
      cases hopen
    | buildUngated | buildEnded | scopesClosed | workDone | mapped | rejected | finished | reported | lossSeen =>
      cases hjob
  · exact .inr ⟨c, call?_kept h.tidy hc fun x htakes hjob => hx ⟨x, htakes, hjob⟩, hopen⟩

omit [Channel α] [Stored α] [Transfer α] in
theorem Attempting.not_endsWith (ha : e.Attempting j) (h : e.Tended B) : ¬e.EndsWith j result := by
  obtain ⟨c, hc, hopen⟩ := ha
  intro hends
  rw [hends.over h hc] at hopen
  cases hopen

omit [Channel α] [Stored α] [Transfer α] in
theorem Tended.over_cases (h : e.Tended B) (hc : e.call? j = some c) (hover : c.phase.isOver = true) :
    (∃ result, e.EndsWith j result) ∨ ∃ answer, (j, answer) ∈ e.settled := by
  have hends := (h.poised j c hc).ends
  rw [hover, if_pos rfl] at hends
  unfold ends at hends
  rcases Nat.eq_zero_or_pos (e.turns.countP (·.2.endsAttempt j)) with hnone | hpos
  · have hpos : 0 < e.settled.countP (·.1 == j) := by omega
    obtain ⟨⟨i, answer⟩, hmem, hi⟩ := List.countP_pos_iff.mp hpos
    cases beq_iff_eq.mp hi
    exact .inr ⟨answer, hmem⟩
  · obtain ⟨⟨delay, x⟩, hmem, hx⟩ := List.countP_pos_iff.mp hpos
    cases x with
    | attemptEnded i result =>
      cases beq_iff_eq.mp hx
      exact .inl ⟨result, List.mem_map_of_mem hmem⟩
    | _ => cases hx

/-- What is about to end an attempt of a call that cannot be aborted: what it came to just now, or before. -/
theorem endsWith_iff (h : e.Tended B) (hm : m.LeavesDelivery) (hc : e.call? j = some c) (hsignal : c.signal = none)
    (hlast : ∀ failure, ¬e.Renews m j failure) : (e.move m).EndsWith j result ↔
      e.Concludes m j result ∨ e.EndsWith j result ∧ ¬e.Takes m (.attemptEnded j result) := by
  obtain ⟨B', -, h'⟩ := h.move hm
  obtain ⟨hsettled, hcalls⟩ := move_retains h.life.able.sorted m
  obtain ⟨c', hc'⟩ := Option.isSome_iff_exists.mp (hcalls j (Option.isSome_of_eq_some hc))
  refine ⟨fun hends => ?_, ?_⟩
  · cases hover : c.phase.isOver with
    | false =>
      rcases move_goes_on (m := m) h hc hover hsignal with ⟨result', hconcludes⟩ | hopen
      · obtain rfl := (hconcludes.ends h).unique hends (h'.ends_le hc')
        exact .inl hconcludes
      · exact absurd hends (hopen.not_endsWith h')
    | true =>
      -- The attempt was about to end before, with what it is about to end with now.
      rcases h.over_cases hc hover with ⟨result', hends'⟩ | ⟨answer, hmem⟩
      · by_cases htakes : e.Takes m (.attemptEnded j result')
        · have hended := ends_settled hc htakes fun failure hf hr => hlast failure ⟨hf ▸ htakes, c, hc, hr⟩
          exact absurd hended (hends.unsettled h' hc' _)
        · obtain rfl : result' = result :=
            EndsWith.unique (due_kept h.life.able.sorted hends' htakes) hends (h'.ends_le hc')
          exact .inr ⟨hends', htakes⟩
      · exact absurd (hsettled hmem) (hends.unsettled h' hc' answer)
  · rintro (hconcludes | ⟨hends, htakes⟩)
    · exact hconcludes.ends h
    · exact due_kept h.life.able.sorted hends htakes

/-- An attempt of the call is made with the pool. It is about to end if it has failed at once. -/
def Attempts (e' : Engine ν α) (pool : Pool ν α) (j : JobId) (c : CompositeCall ν α) : Prop :=
  ∃ e : Engine ν α, e.pool = pool ∧ e' = e.startAttempt j c ∧
    ∀ result, e'.EndsWith j result ↔ ∃ failure, result = .error failure ∧ e.FailsAtOnce c failure

omit [Stored α] [Transfer α] in
theorem startAttempt_attempts (h : e'.Tended B) (ha : e.pool.Able [.destroyBuffer]) (hj : j < e.jobs.size)
    (hlayers : c.layers ≠ []) (heq : e' = e.startAttempt j c) : e'.Attempts e.pool j c := by
  subst heq
  refine ⟨e, rfl, rfl, fun result => ⟨fun hends => ?_, ?_⟩⟩
  · rcases startAttempt_goes_on hj hlayers with ⟨failure, hf⟩ | hopen
    · obtain ⟨c', hc', -⟩ := startAttempt_has hj c
      exact ⟨failure, hends.unique (hf.ends ha hj hlayers) (h.ends_le hc'), hf⟩
    · exact absurd hends (hopen.not_endsWith h)
  · rintro ⟨failure, rfl, hf⟩
    exact hf.ends ha hj hlayers

theorem begins_attempts (h : e.Tended B) (hsupervised : e.supervised = true) {layers options : Value α}
    {verifies : Bool} {ls : List (Layer ν α)} {o : CompositeOptions} (hlayers : parseLayers layers = .ok ls)
    (hoptions : parseOptions options = .ok o) (habort : e.abortReason? o.signal = none) :
    let c : CompositeCall ν α := ⟨ls, o.outputFormat, o.signal, verifies, 0, [], .ended⟩
    let e' := e.move (.call (.composite layers options verifies))
    e'.Attempts e.pool e.jobs.size c ∧ e'.Has e.jobs.size c := by
  intro c e'
  have hlt : e.jobs.size < (e.addJob .lookup).2.jobs.size := Array.size_push .. ▸ Nat.lt_succ_self _
  have hmove : e' = (e.addJob .lookup).2.startAttempt e.jobs.size c :=
    (apply_supervised hsupervised (.composite layers options verifies)).trans
      (startComposite_eq hlayers hoptions habort)
  have hable : e.Able [.destroyBuffer] := h.life.able.mono (by simp [deliveryCalls])
  obtain ⟨B', -, h'⟩ := h.move (m := .call (.composite layers options verifies)) trivial
  exact ⟨startAttempt_attempts (e := (e.addJob .lookup).2) h' hable.pool hlt (parseLayers_ok hlayers).1 hmove,
    hmove ▸ startAttempt_has hlt c⟩

theorem renews_attempts (h : e.Tended B) (hm : m.LeavesDelivery) (hc : e.call? j = some c)
    (htakes : e.Takes m (.attemptEnded j (.error failure))) (hr : e.Retriable c failure) :
    (e.move m).Attempts e.pool.trim.2 j { c with retries := c.retries + 1 } := by
  obtain ⟨delay, rest, -, heq⟩ := htakes.move_eq
  obtain ⟨log, hrenews⟩ := attemptEnded_renews (e := { e with turns := rest }) h.destroys hc hr
  have hable : e.Able [.destroyBuffer] := h.life.able.mono (by simp [deliveryCalls])
  obtain ⟨B', -, h'⟩ := h.move hm
  exact startAttempt_attempts (e := { e with turns := rest, log, pool := e.pool.trim.2 }) h'
    (hable.pool.uses (Pool.Uses.trim e.pool)) (lt_of_call? hc) (h.layered j c hc) (heq.trans hrenews)

end Strata.Engine
