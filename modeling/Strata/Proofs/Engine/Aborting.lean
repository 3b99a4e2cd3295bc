import Strata.Proofs.Engine.Leaks
import Strata.Proofs.Engine.Standing

/-!
# Aborting composite calls

A signal stays aborted (`move_aborted`), and a call whose signal is aborted leaves the session as it is, so it
submits nothing. A call that waits for its submission listens to its signal (`Abortable`). Once that is aborted the
call is to be resumed with the reason and nothing else (`Recalled`), and then its attempt ends with the reason
(`Doomed`); each move takes it from one of these to the same or to the next (`Abortable.step`, `Recalled.step`,
`Doomed.step`). A reason that is a lack of memory is one that a call with retries left tries again for (`Renews`).
-/

namespace Strata.Engine

variable {ν α : Type} [Measure ν] [Channel α] [Stored α] [Transfer α] {B : Books ν α} {e : Engine ν α}
  {m : Move ν α} {j : JobId} {t : SubmissionId} {s : SignalId} {failure : Failure}

/-! ## Aborted signals -/

theorem move_aborted (h : e.Life B []) (hm : ∀ reason, m = .call (.abort s reason) →
    e.abortReason? (some s) ≠ none) :
    (e.move m).abortReason? (some s) = e.abortReason? (some s) := by
  change ∀ reason, m = .call (.abort s reason) → e.signals.getD s none ≠ none at hm
  show (e.move m).signals.getD s none = e.signals.getD s none
  cases move_informs h m with
  | nobody _ _ hsignals =>
    rcases hsignals with heq | heq
    · rw [heq]
    · simp only [heq, Array.getD_eq_getD_getElem?, Array.getElem?_push]
      split
      · rename_i hs
        rw [hs, Array.getElem?_eq_none (Nat.le_refl _)]
        rfl
      · rfl
  | submits _ _ _ _ _ heq | collects _ _ _ heq | drains _ _ _ heq => rw [heq]
  | @aborts signal reason hcalls hfirst _ _ heq =>
    have hne : signal ≠ s := by
      rintro rfl
      exact hm reason hcalls hfirst
    simp only [heq, Array.getD_eq_getD_getElem?, Array.getElem?_setIfInBounds_ne hne]

theorem move_withheld (hs : e.Sorted) {c : CompositeCall ν α} (hc : e.call? j = some c)
    (ha : e.abortReason? c.signal = some failure) (hw : e.WorksFor m j) : (e.move m).session = e.session := by
  obtain ⟨-, x, htakes, hjob⟩ := hw.resolve_left fun ⟨_, hnew⟩ => by
    rw [call?_of_size_le (Nat.le_of_eq hnew.symm)] at hc
    cases hc
  obtain ⟨delay, rest, -, heq⟩ := htakes.move_eq
  rw [heq]
  by_cases hplanned : x = .planned j
  · subst hplanned
    have hc' : ({ e with turns := rest } : Engine ν α).call? j = some c := hc
    have ha' : ({ e with turns := rest } : Engine ν α).abortReason? c.signal = some failure := ha
    show (Engine.planned _ j).session = e.session
    unfold planned
    rw [hc']
    dsimp only
    split
    · exact (leave_chores _ j _ _).session
    · rw [ha']
      exact (leave_chores _ j _ _).session
    · rfl
  · have hother (i : JobId) : x ≠ .planned i := by
      rintro rfl
      cases hjob
      exact hplanned rfl
    have hfinished (t : SubmissionId) (o : Outcome) : x ≠ .finished t o := by
      rintro rfl
      cases hjob
    refine perform_session (e := { e with turns := rest }) hother hfinished ?_ hs
    cases x <;> first | rfl | cases hjob

/-! ## Calls that wait for a submission -/

omit [Measure ν] [Channel α] [Stored α] [Transfer α] in
def Drains (e : Engine ν α) (j : JobId) (t : SubmissionId) (s : SignalId) : Prop :=
  ∃ c plan, e.call? j = some c ∧ c.phase = .draining plan t ∧ c.signal = some s

theorem Drains.step (hd : e.Drains j t s) (h : e.Tended B) (hm : ∀ o, ¬e.Takes m (.resumed j t o)) :
    (e.move m).Drains j t s := by
  obtain ⟨c, plan, hc, hphase, hsignal⟩ := hd
  exact ⟨c, plan, drains_until_resumed h.tidy hc (h.poised j c hc) hphase hm, hphase, hsignal⟩

/-- Who resumes a call that listens to a signal: its submission, or the abort. -/
theorem Drains.resumed (hd : e.Drains j t s) (h : e.Tended B) {o : Outcome}
    (hdue : .resumed j t o ∈ (e.move m).turns.map (·.2)) : .resumed j t o ∈ e.turns.map (·.2) ∨
      (e.Takes m (.drained j t o) ∧ ∃ l ∈ e.listeners, l.2 = (j, t)) ∨
      ∃ reason, m = .call (.abort s reason) ∧ o = .error (abortFailure reason) ∧ ∃ l ∈ e.listeners,
      l.2 = (j, t) := by
  obtain ⟨c, plan, hc, -, hsignal⟩ := hd
  obtain ⟨x, hx, heq⟩ := List.mem_map.mp hdue
  have hnew {P : Turn ν α → Prop} (hnews : e.News (e.move m) P) :
      .resumed j t o ∈ e.turns.map (·.2) ∨ P (.resumed j t o) := by
    have hx' := hnews x hx
    rw [heq] at hx'
    exact hx' rfl
  cases move_informs h.life m with
  | nobody hnews | submits _ _ _ hnews => exact .inl ((hnew hnews).resolve_right id)
  | collects _ hnews =>
    refine (hnew hnews).imp_right fun ⟨c', hc', hturn⟩ => ?_
    split at hturn
    · cases hturn
    · rename_i hnone
      cases hturn
      cases hc.symm.trans hc'
      rw [hsignal] at hnone
      exact absurd rfl hnone
  | drains htakes hnews =>
    refine (hnew hnews).imp_right fun ⟨hturn, hlistens⟩ => .inl ?_
    cases hturn
    exact ⟨htakes, hlistens⟩
  | @aborts signal reason hcalls _ hturns =>
    rw [hturns] at hx
    refine (List.mem_append.mp hx).imp (heq ▸ List.mem_map_of_mem ·) fun hx => .inr ?_
    obtain ⟨l, hl, rfl⟩ := List.mem_map.mp hx
    cases heq
    obtain ⟨hl, hlsignal⟩ := List.mem_filter.mp hl
    obtain ⟨-, c', hc', hsignal'⟩ := h.informed.listeners l hl
    cases hc.symm.trans hc'
    obtain rfl : signal = s := (beq_iff_eq.mp hlsignal).symm.trans (Option.some.inj (hsignal'.symm.trans hsignal))
    exact ⟨reason, hcalls, rfl, l, hl, rfl⟩

/-- A call waits for its submission, and listens to its signal, which is not aborted. -/
structure Abortable (e : Engine ν α) (j : JobId) (t : SubmissionId) (s : SignalId) : Prop where
  drains : e.Drains j t s
  listens : (s, j, t) ∈ e.listeners
  unaborted : e.abortReason? (some s) = none
  alone : ∀ o, .resumed j t o ∉ e.turns.map (·.2)

/-- A call that waits for its submission is to be resumed, with the failure and nothing else. -/
structure Recalled (e : Engine ν α) (j : JobId) (t : SubmissionId) (s : SignalId) (failure : Failure) : Prop where
  drains : e.Drains j t s
  due : .resumed j t (.error failure) ∈ e.turns.map (·.2)
  only : ∀ o, .resumed j t o ∈ e.turns.map (·.2) → o = .error failure
  unheard : ∀ l ∈ e.listeners, l.2 ≠ (j, t)

theorem SubmitsFor.abortable (h : e.Tended B) {plan : PlanId} (hs : e.SubmitsFor m j plan t) {c : CompositeCall ν α}
    (hc : e.call? j = some c) (hsignal : c.signal = some s) : (e.move m).Abortable j t s := by
  obtain ⟨delay, rest, s', c', hperm, hc', hturns, hlisteners, hcall⟩ := hs.stands h.life
  cases hc.symm.trans hc'
  obtain ⟨htakes, c', hc', -, habort, -⟩ := id hs
  cases hc.symm.trans hc'
  refine ⟨⟨_, plan, hcall, rfl, hsignal⟩, ?_, ?_, fun o hdue => ?_⟩
  · rw [hlisteners, hsignal]
    exact List.mem_append_right _ (List.mem_singleton_self _)
  · rw [hsignal] at habort
    rw [move_aborted h.life, habort]
    rintro reason rfl
    exact htakes.elim
  · rw [hturns, List.map_append, List.mem_append] at hdue
    rcases hdue with hdue | hdue
    · obtain ⟨x, hx, heq⟩ := List.mem_map.mp hdue
      have hwarrants := h.informed.turns x (hperm.symm.subset (List.mem_cons_of_mem _ hx))
      rw [heq] at hwarrants
      exact Submits.fresh (.inr ⟨j, hs⟩) hwarrants.1
    · cases List.mem_singleton.mp hdue

/-- Until its submission reaches it or its signal is aborted, a call keeps waiting. -/
theorem Abortable.step (ha : e.Abortable j t s) (h : e.Tended B) (habort : ∀ reason, m ≠ .call (.abort s reason))
    (hm : ∀ o, ¬e.Takes m (.drained j t o)) : (e.move m).Abortable j t s := by
  have hresumed (o : Outcome) : ¬e.Takes m (.resumed j t o) := fun htakes => by
    obtain ⟨delay, hdue⟩ := htakes.mem
    exact ha.alone o (List.mem_map_of_mem hdue)
  refine ⟨ha.drains.step h hresumed, ?_, ?_, fun o hdue => ?_⟩
  · cases move_informs h.life m with
    | nobody _ heq | collects _ _ heq => exact heq ▸ ha.listens
    | submits _ _ _ _ heq => exact heq ▸ List.mem_append_left _ ha.listens
    | @drains i t' o htakes _ heq =>
      rw [heq]
      refine List.mem_filter.mpr ⟨ha.listens, ?_⟩
      have hne : (j, t) ≠ (i, t') := by
        rintro heq
        cases heq
        exact hm o htakes
      simpa using hne
    | @aborts signal reason hcalls _ _ heq =>
      rw [heq]
      refine List.mem_filter.mpr ⟨ha.listens, ?_⟩
      have hne : s ≠ signal := by
        rintro rfl
        exact habort reason hcalls
      simpa using hne
  · rw [move_aborted h.life fun reason hcalls => absurd hcalls (habort reason), ha.unaborted]
  · rcases ha.drains.resumed h hdue with hold | ⟨htakes, -⟩ | ⟨reason, hcalls, -⟩
    · exact ha.alone o hold
    · exact hm o htakes
    · exact habort reason hcalls

theorem Abortable.aborted (ha : e.Abortable j t s) (h : e.Tended B) (reason : Option Raised) :
    (e.move (.call (.abort s reason))).Recalled j t s (abortFailure reason) := by
  have hmove : e.move (.call (.abort s reason)) = e.abort s reason := rfl
  have hdrains := ha.drains.step h (m := .call (.abort s reason)) fun _ => id
  rw [hmove] at hdrains ⊢
  rcases e.abort_eq s reason with ⟨-, hsome⟩ | ⟨-, heq⟩
  · rw [show e.signals.getD s none = none from ha.unaborted] at hsome
    cases hsome
  rw [heq] at hdrains ⊢
  refine ⟨hdrains, ?_, fun o hdue => ?_, fun l hl hlt => ?_⟩
  · rw [List.map_append, List.map_map]
    refine List.mem_append_right _ (List.mem_map.mpr ⟨_, List.mem_filter.mpr ⟨ha.listens, beq_self_eq_true s⟩, rfl⟩)
  · rw [List.map_append, List.map_map, List.mem_append] at hdue
    rcases hdue with hdue | hdue
    · exact absurd hdue (ha.alone o)
    · obtain ⟨l, -, hl⟩ := List.mem_map.mp hdue
      cases hl
      rfl
  · obtain ⟨hl, hne⟩ := List.mem_filter.mp hl
    obtain ⟨-, c, hc, hsignal⟩ := h.informed.listeners l hl
    obtain ⟨c', plan, hc', -, hsignal'⟩ := ha.drains
    rw [hlt] at hc
    cases hc.symm.trans hc'
    rw [hsignal] at hsignal'
    cases hsignal'
    simp at hne

/-! ## Calls that are resumed -/

theorem due_kept (hs : e.Sorted) {x : Turn ν α} (hx : x ∈ e.turns.map (·.2)) (hm : ¬e.Takes m x) :
    x ∈ (e.move m).turns.map (·.2) := by
  rcases e.move_cases m with ⟨op, rfl⟩ | ⟨x', delay, rest, htakes, hperm, heq⟩ | ⟨-, turns, hperm, heq⟩
  · have hdeeds := apply_deeds (R := fun _ => True) hs op (fun _ => trivial) (fun _ _ => trivial)
        fun _ _ _ => trivial
    exact List.map_subset _ hdeeds.retains.turns hx
  · rw [heq]
    obtain ⟨more, hmore⟩ := perform_appends ({ e with turns := rest } : Engine ν α) x'
    obtain ⟨y, hy, rfl⟩ := List.mem_map.mp hx
    rcases List.mem_cons.mp (hperm.subset hy) with rfl | hy
    · exact absurd htakes hm
    · exact List.mem_map_of_mem (hmore ▸ List.mem_append_left _ hy)
  · rw [heq]
    exact hperm.symm.subset hx

theorem move_retains (hs : e.Sorted) (m : Move ν α) :
    e.settled ⊆ (e.move m).settled ∧ ∀ i, (e.call? i).isSome → ((e.move m).call? i).isSome := by
  obtain ⟨turns, -, hdeeds⟩ := move_deeds (R := fun _ => True) hs m (fun _ => trivial) (fun _ _ _ _ => trivial)
    fun _ _ _ => trivial
  exact ⟨hdeeds.retains.settled, hdeeds.retains.call⟩

theorem Recalled.taken (hr : e.Recalled j t s failure) (h : e.Tended B) {o : Outcome}
    (htakes : e.Takes m (.resumed j t o)) : (e.move m).Doomed j failure := by
  obtain ⟨delay, hdue⟩ := htakes.mem
  obtain rfl : o = .error failure := hr.only o (List.mem_map_of_mem hdue)
  obtain ⟨c, plan, hc, hphase, -⟩ := hr.drains
  obtain ⟨delay, rest, -, heq⟩ := htakes.move_eq
  let e₁ : Engine ν α := { e with turns := rest }
  have hc₁ : e₁.call? j = some c := hc
  obtain ⟨base, -, hleaves⟩ := resumed_leaves hc₁ hphase (h.layered j c hc) (.error failure)
  obtain ⟨pool, hends⟩ := leave_ends (e := e₁) h.life.able.pool.sound h.destroys hc₁ (e₁.ownedBy plan)
    (.error failure)
  have hmove : e.move m =
      (({ e₁ with pool } : Engine ν α).setCall j { c with held := [], phase := .ended }).schedule
      1 (.attemptEnded j (.error failure)) := heq.trans (hleaves.trans hends)
  rw [hmove]
  refine .inl ⟨⟨1, List.mem_append_right _ (List.mem_singleton_self _)⟩, ?_⟩
  exact Option.isSome_of_eq_some (call?_setCall_self (e := { e₁ with pool }) (lt_of_call? hc) _)

theorem Recalled.step (hr : e.Recalled j t s failure) (h : e.Tended B) (hm : ∀ o, ¬e.Takes m (.resumed j t o)) :
    (e.move m).Recalled j t s failure := by
  refine ⟨hr.drains.step h hm, due_kept h.life.able.sorted hr.due (hm _), fun o hdue => ?_, fun l hl hlt => ?_⟩
  · rcases hr.drains.resumed h hdue with hold | ⟨-, l, hl, hlt⟩ | ⟨reason, -, -, l, hl, hlt⟩
    · exact hr.only o hold
    · exact absurd hlt (hr.unheard l hl)
    · exact absurd hlt (hr.unheard l hl)
  · cases move_informs h.life m with
    | nobody _ heq | collects _ _ heq => exact hr.unheard l (heq ▸ hl) hlt
    | @submits i plan t' c hsubmits _ _ _ heq =>
      rw [heq] at hl
      rcases List.mem_append.mp hl with hl | hl
      · exact hr.unheard l hl hlt
      · -- A call that waits does not submit.
        obtain ⟨signal, -, rfl⟩ := List.mem_map.mp hl
        cases hlt
        obtain ⟨-, c, hc, hphase, -⟩ := hsubmits
        obtain ⟨c', plan', hc', hphase', -⟩ := hr.drains
        cases hc.symm.trans hc'
        cases hphase.symm.trans hphase'
    | drains _ _ heq | aborts _ _ _ heq => exact hr.unheard l (List.mem_filter.mp (heq ▸ hl)).1 hlt

theorem ends_settled {c : CompositeCall ν α} (hc : e.call? j = some c) {result : Except Failure (Raster ν α)}
    (htakes : e.Takes m (.attemptEnded j result)) (hlast : ∀ failure, result = .error failure →
      ¬e.Retriable c failure) :
    (j, result >>= e.answerOf c) ∈ (e.move m).settled := by
  obtain ⟨delay, rest, -, heq⟩ := htakes.move_eq
  obtain ⟨log, hsettles⟩ := attemptEnded_settles (e := { e with turns := rest }) hc hlast
  have hmove : e.move m = { e with turns := rest, log, settled := e.settled ++ [(j, result >>= e.answerOf c)] } :=
    heq.trans hsettles
  rw [hmove]
  exact List.mem_append_right _ (List.mem_singleton_self _)

theorem fails_settled (hcall : (e.call? j).isSome) (htakes : e.Takes m (.attemptEnded j (.error failure)))
    (hlast : ¬e.Renews m j failure) : (j, .error failure) ∈ (e.move m).settled := by
  obtain ⟨c, hc⟩ := Option.isSome_iff_exists.mp hcall
  refine ends_settled hc htakes fun failure' hf hr => ?_
  cases hf
  exact hlast ⟨htakes, c, hc, hr⟩

theorem Doomed.step (hdoomed : e.Doomed j failure) (hs : e.Sorted) (hlast : ¬e.Renews m j failure) :
    (e.move m).Doomed j failure := by
  obtain ⟨hsettled, hcalls⟩ := move_retains hs m
  rcases hdoomed with ⟨⟨delay, hdue⟩, hcall⟩ | hmem
  · by_cases htakes : e.Takes m (.attemptEnded j (.error failure))
    · exact .inr (fails_settled hcall htakes hlast)
    · obtain ⟨⟨delay', x⟩, hx, rfl⟩ := List.mem_map.mp (due_kept hs (List.mem_map_of_mem hdue) htakes)
      exact .inl ⟨⟨delay', hx⟩, hcalls j hcall⟩
  · exact .inr (hsettled hmem)

omit [Channel α] [Stored α] [Transfer α] in
theorem Tended.ends_le (h : e.Tended B) {c : CompositeCall ν α} (hc : e.call? j = some c) : e.ends j ≤ 1 := by
  rw [(h.poised j c hc).ends]
  split <;> decide

omit [Measure ν] [Channel α] [Stored α] [Transfer α] in
theorem settled_alone {result : Except Failure (JobValue ν α)} (hmem : (j, result) ∈ e.settled)
    (hends : e.ends j ≤ 1) : e.settled.filter (·.1 == j) = [(j, result)] := by
  have hmem' : (j, result) ∈ e.settled.filter (·.1 == j) := List.mem_filter.mpr ⟨hmem, beq_self_eq_true j⟩
  have hlength : (e.settled.filter (·.1 == j)).length ≤ 1 := by
    unfold ends at hends
    rw [← List.countP_eq_length_filter]
    omega
  obtain ⟨x, hx⟩ := List.length_eq_one_iff.mp (Nat.le_antisymm hlength (List.length_pos_of_mem hmem'))
  rw [hx, List.mem_singleton] at hmem'
  exact hmem' ▸ hx

omit [Measure ν] [Channel α] [Stored α] [Transfer α] in
theorem Doomed.alone (hdoomed : e.Doomed j failure) (hends : e.ends j ≤ 1) :
    e.settled.filter (·.1 == j) = [] ∨ e.settled.filter (·.1 == j) = [(j, .error failure)] := by
  rcases hdoomed with ⟨⟨delay, hdue⟩, -⟩ | hmem
  · have hpos : 0 < e.turns.countP (·.2.endsAttempt j) := List.countP_pos_iff.mpr ⟨_, hdue, beq_self_eq_true j⟩
    have hnone : e.settled.countP (·.1 == j) = 0 := by
      unfold ends at hends
      omega
    exact .inl (List.filter_eq_nil_iff.mpr (List.countP_eq_zero.mp hnone))
  · exact .inr (settled_alone hmem hends)

omit [Channel α] [Stored α] [Transfer α] in
theorem Drains.unended (hd : e.Drains j t s) (h : e.Tended B) : e.settled.filter (·.1 == j) = [] := by
  obtain ⟨c, plan, hc, hphase, -⟩ := hd
  have hends : e.ends j = 0 := by
    rw [(h.poised j c hc).ends, hphase]
    rfl
  unfold ends at hends
  have hnone : e.settled.countP (·.1 == j) = 0 := by omega
  exact List.filter_eq_nil_iff.mpr (List.countP_eq_zero.mp hnone)

/-! ## Runs -/

/-- What each move keeps, but those of one kind, a run without such keeps. -/
theorem Tended.run_keeps {P : Engine ν α → Prop} {Q : Engine ν α → Move ν α → Prop}
    (hstep : ∀ {e B m}, e.Tended B → m.LeavesDelivery → ¬Q e m → P e → P (e.move m)) (h : e.Tended B)
    {moves : List (Move ν α)} (hm : ∀ m ∈ moves, m.LeavesDelivery) (hQ : ¬e.Along moves Q) (hP : P e) :
    P (e.run moves) := by
  induction moves using List.reverseRecOn with
  | nil => exact hP
  | append_singleton moves m ih =>
    have hm' (m' : Move ν α) (h : m' ∈ moves) : m'.LeavesDelivery := hm m' (List.mem_append_left _ h)
    rw [along_append, not_or] at hQ
    obtain ⟨B', -, h'⟩ := h.run hm'
    rw [run_append]
    exact hstep h' (hm m (List.mem_append_right _ (List.mem_singleton_self m))) hQ.2 (ih hm' hQ.1)

/-- A call that was aborted while it waited is to be resumed with the failure, or about to end with it, or has. -/
def Fails (e : Engine ν α) (j : JobId) (t : SubmissionId) (s : SignalId) (failure : Failure) : Prop :=
  e.Recalled j t s failure ∨ e.Doomed j failure ∧ (e.call? j).isSome

theorem Fails.step (hf : e.Fails j t s failure) (h : e.Tended B) (hlast : ¬e.Renews m j failure) :
    (e.move m).Fails j t s failure := by
  have hcalls := (move_retains h.life.able.sorted m).2 j
  rcases hf with hr | ⟨hdoomed, hcall⟩
  · by_cases htakes : ∃ o, e.Takes m (.resumed j t o)
    · obtain ⟨o, htakes⟩ := htakes
      obtain ⟨c, plan, hc, -⟩ := hr.drains
      exact .inr ⟨hr.taken h htakes, hcalls (Option.isSome_of_eq_some hc)⟩
    · exact .inl (hr.step h fun o ht => htakes ⟨o, ht⟩)
  · exact .inr ⟨hdoomed.step h.life.able.sorted hlast, hcalls hcall⟩

theorem Fails.run (hf : e.Fails j t s failure) (h : e.Tended B) {moves : List (Move ν α)}
    (hm : ∀ m ∈ moves, m.LeavesDelivery) (hlast : ¬e.Along moves (·.Renews · j failure)) :
    (e.run moves).Fails j t s failure :=
  h.run_keeps (P := fun e => e.Fails j t s failure) (fun h _ hlast hf => Fails.step hf h hlast) hm hlast hf

omit [Channel α] [Stored α] [Transfer α] in
theorem Fails.alone (hf : e.Fails j t s failure) (h : e.Tended B) :
    e.settled.filter (·.1 == j) = [] ∨ e.settled.filter (·.1 == j) = [(j, .error failure)] := by
  rcases hf with hr | ⟨hdoomed, hcall⟩
  · exact .inl (hr.drains.unended h)
  · obtain ⟨c, hc⟩ := Option.isSome_iff_exists.mp hcall
    exact hdoomed.alone (h.ends_le hc)

theorem along_concat {P : Engine ν α → Move ν α → Prop} {moves moves' : List (Move ν α)}
    (h : e.Along moves P ∨ (e.run moves).Along moves' P) : e.Along (moves ++ moves') P := by
  rcases h with ⟨before, m, after, rfl, hP⟩ | ⟨before, m, after, rfl, hP⟩
  · exact ⟨before, m, after ++ moves', by simp, hP⟩
  · exact ⟨moves ++ before, m, after, by simp, by rwa [run_append]⟩

theorem fires_tended (h : e.Tended B) (n : Nat) : ∃ B', (e.fires n).Tended B' := by
  have hfires (m : Move ν α) (hm : m ∈ List.replicate n Move.fire) : m.LeavesDelivery :=
    List.eq_of_mem_replicate hm ▸ trivial
  obtain ⟨B', -, h'⟩ := h.run hfires
  exact ⟨B', h'⟩

/-- Fired long enough, a call that fails ends, or tries again. -/
theorem Doomed.ends (hdoomed : e.Doomed j failure) (hcall : (e.call? j).isSome) (h : e.Tended B) :
    ∃ n, (e.fires n).settled.filter (·.1 == j) = [(j, .error failure)] ∨
      e.Along (List.replicate n .fire) (·.Renews · j failure) := by
  have hcalls (n : Nat) : ((e.fires n).call? j).isSome :=
    h.run_keeps (P := fun e => (e.call? j).isSome) (Q := fun _ _ => False)
      (fun h _ _ => (move_retains h.life.able.sorted _).2 j) (fun m hm => List.eq_of_mem_replicate hm ▸ trivial)
      (fun ⟨_, _, _, _, h⟩ => h) hcall
  have hended (n : Nat) (hmem : (j, .error failure) ∈ (e.fires n).settled) :
      (e.fires n).settled.filter (·.1 == j) = [(j, .error failure)] := by
    obtain ⟨B', h'⟩ := fires_tended h n
    obtain ⟨c, hc⟩ := Option.isSome_iff_exists.mp (hcalls n)
    exact settled_alone hmem (h'.ends_le hc)
  rcases hdoomed with ⟨⟨delay, hdue⟩, -⟩ | hmem
  · obtain ⟨n, delay', rest, hn, hle⟩ := comes_up hdue
    refine ⟨n + 1, or_iff_not_imp_right.mpr fun hlast => hended _ ?_⟩
    rw [List.replicate_succ', along_append, not_or] at hlast
    rw [fires_add]
    exact fails_settled (m := .fire) (hcalls n) ⟨delay', rest, hn, hle⟩ hlast.2
  · exact ⟨0, .inl (hended 0 hmem)⟩

theorem Fails.ends (hf : e.Fails j t s failure) (h : e.Tended B) :
    ∃ n, (e.fires n).settled.filter (·.1 == j) = [(j, .error failure)] ∨
      e.Along (List.replicate n .fire) (·.Renews · j failure) := by
  rcases hf with hr | ⟨hdoomed, hcall⟩
  · obtain ⟨⟨delay, x⟩, hdue, rfl⟩ := List.mem_map.mp hr.due
    obtain ⟨n, delay', rest, hn, hle⟩ := comes_up hdue
    by_cases hagain : e.Along (List.replicate (n + 1) .fire) (·.Renews · j failure)
    · exact ⟨n + 1, .inr hagain⟩
    · rw [List.replicate_succ', along_append, not_or] at hagain
      obtain ⟨B', h'⟩ := fires_tended h n
      have hfails : (e.fires n).Fails j t s failure :=
        Fails.run (.inl hr) h (fun m hm => List.eq_of_mem_replicate hm ▸ trivial) hagain.1
      have hnext : (e.fires (n + 1)).Doomed j failure ∧ ((e.fires (n + 1)).call? j).isSome := by
        have hcalls := (move_retains h'.life.able.sorted .fire).2 j
        rw [fires_add]
        rcases hfails with hr' | ⟨hdoomed, hcall⟩
        · obtain ⟨c, plan, hc, -⟩ := hr'.drains
          exact ⟨hr'.taken (m := .fire) h' ⟨delay', rest, hn, hle⟩, hcalls (Option.isSome_of_eq_some hc)⟩
        · exact ⟨hdoomed.step h'.life.able.sorted hagain.2, hcalls hcall⟩
      obtain ⟨B'', h''⟩ := fires_tended h (n + 1)
      obtain ⟨n', hn'⟩ := hnext.1.ends hnext.2 h''
      refine ⟨n + 1 + n', hn'.imp (fun hn' => by rwa [fires_add]) fun hn' => ?_⟩
      rw [← List.replicate_append_replicate]
      exact along_concat (.inr hn')
  · exact hdoomed.ends hcall h

/-- What becomes of composite calls whose signals are aborted. -/
structure AbortSafe (start : Engine ν α) (moves : List (Move ν α)) : Prop where
  /-- A call whose signal is aborted before ends at once, and makes no attempt. -/
  refused : ∀ before after layers options verifies ls o failure,
    moves = before ++ .call (.composite layers options verifies) :: after →
    parseLayers (ν := ν) layers = .ok ls → parseOptions options = .ok o →
    (start.run before).abortReason? o.signal = some failure →
      ((start.run before).jobs.size, .error failure) ∈ (start.run moves).settled ∧
      (start.run moves).call? (start.run before).jobs.size = none
  /-- Once its signal is aborted, nothing is submitted for a call. -/
  withheld : ∀ before mid m after j c s failure, moves = before ++ (mid ++ m :: after) →
    (start.run before).abortReason? (some s) = some failure →
    (start.run (before ++ mid)).call? j = some c → c.signal = some s → (start.run (before ++ mid)).WorksFor m j →
      ((start.run (before ++ mid)).move m).session = (start.run (before ++ mid)).session
  /-- A call whose signal is aborted before the outcome of its submission has reached it ends once, with the reason,
  whatever follows; unless it takes the reason for a lack of memory, and tries again. -/
  rejected : ∀ before m mid after j c plan t s reason,
    moves = before ++ m :: (mid ++ .call (.abort s reason) :: after) →
    (start.run before).call? j = some c → c.signal = some s → (start.run before).SubmitsFor m j plan t →
    (¬(start.run (before ++ [m])).Along mid fun e m =>
      (∃ o, e.Takes m (.drained j t o)) ∨ ∃ reason, m = .call (.abort s reason)) →
    (¬(start.run (before ++ m :: (mid ++ [.call (.abort s reason)]))).Along after
      (·.Renews · j (abortFailure reason))) →
      ((start.run moves).settled.filter (·.1 == j) = [] ∨
        (start.run moves).settled.filter (·.1 == j) = [(j, .error (abortFailure reason))]) ∧
      ∃ n, ((start.run moves).fires n).settled.filter (·.1 == j) = [(j, .error (abortFailure reason))] ∨
        (start.run moves).Along (List.replicate n .fire) (·.Renews · j (abortFailure reason))
  /-- The reason is the given one if it is an error. -/
  reason : ∀ reason, (∃ error, reason = some (.error error) ∧ abortFailure reason = .host error) ∨
    (∀ error, reason ≠ some (.error error)) ∧ ∃ text, abortFailure reason = .aborted text

theorem refused_stays (h : e.Tended B) (hsupervised : e.supervised = true) {layers options : Value α}
    {verifies : Bool} {ls : List (Layer ν α)} {o : CompositeOptions} (hlayers : parseLayers layers = .ok ls)
    (hoptions : parseOptions options = .ok o) (ha : e.abortReason? o.signal = some failure)
    {after : List (Move ν α)} (hm : ∀ m ∈ after, m.LeavesDelivery) :
    let e' := (e.move (.call (.composite layers options verifies))).run after
    (e.jobs.size, .error failure) ∈ e'.settled ∧ e'.call? e.jobs.size = none := by
  intro e'
  let P : Engine ν α → Prop := fun e' =>
    (e.jobs.size, .error failure) ∈ e'.settled ∧ e'.call? e.jobs.size = none ∧ e.jobs.size < e'.jobs.size
  have hmove : e.move (.call (.composite layers options verifies)) =
      (e.addJob .lookup).2.settle e.jobs.size (.error failure) := by
    have hcarry : e.move (.call (.composite layers options verifies)) =
        (e.startComposite layers options verifies).2 :=
      apply_supervised hsupervised (.composite layers options verifies)
    rw [hcarry]
    unfold startComposite
    dsimp only
    rw [hlayers, hoptions]
    dsimp only
    rw [show (e.addJob .lookup).2.abortReason? o.signal = some failure from ha]
    rfl
  have hended : P (e.move (.call (.composite layers options verifies))) := by
    rw [hmove]
    refine ⟨List.mem_append_right _ (List.mem_singleton_self _), Respects.call?_new e, ?_⟩
    exact Array.size_push .. ▸ Nat.lt_succ_self _
  obtain ⟨B', -, h'⟩ := h.move (m := .call (.composite layers options verifies)) trivial
  obtain ⟨hsettled, hnone, -⟩ := h'.run_keeps (P := P) (Q := fun _ _ => False) (fun {e' B m} h _ _ hP => by
    obtain ⟨hsettled, hnone, hlt⟩ := hP
    have hw : ¬e'.WorksFor m e.jobs.size := by
      rintro (⟨-, hnew⟩ | ⟨hsome, -⟩)
      · exact Nat.ne_of_lt hlt hnew
      · rw [hnone] at hsome
        cases hsome
    have hrespects := move_respects h.tidy m
    exact ⟨(move_retains h.life.able.sorted m).1 hsettled, (hrespects.calls _ hw).trans hnone,
      Nat.lt_of_lt_of_le hlt hrespects.size⟩) hm (fun ⟨_, _, _, _, h⟩ => h) hended
  exact ⟨hsettled, hnone⟩

theorem run_supervised {start : Engine ν α} (hstart : start.Opened)
    (hd : ∀ x ∈ start.pool.device.faults, x.1 ∉ deliveryCalls) (moves : List (Move ν α)) :
    (start.run moves).supervised = true := by
  obtain ⟨device, o, config, rfl⟩ := hstart.eq
  exact (run_ages (hstart.able hd).sorted moves).2.1

/-- Composite calls abort safely, in any run. -/
theorem calls_abort_safely {start : Engine ν α} (hstart : start.Opened)
    (hd : ∀ x ∈ start.pool.device.faults, x.1 ∉ deliveryCalls) {moves : List (Move ν α)}
    (hm : ∀ m ∈ moves, m.LeavesDelivery) : start.AbortSafe moves := by
  have htended {before : List (Move ν α)} (hbefore : before ⊆ moves) : ∃ B, (start.run before).Tended B :=
    have ⟨B, _, h⟩ := (hstart.tended hd).run fun m hmem => hm m (hbefore hmem)
    ⟨B, h⟩
  refine ⟨?_, ?_, ?_, fun reason => ?_⟩
  · rintro before after layers options verifies ls o failure rfl hlayers hoptions ha
    obtain ⟨B, h⟩ := htended (List.subset_append_left before _)
    rw [run_append]
    exact refused_stays h (run_supervised hstart hd before) hlayers hoptions ha fun m hmem => hm m (by simp [hmem])
  · rintro before mid m after j c s failure rfl ha hc hsignal hw
    obtain ⟨B, h⟩ := htended (List.subset_append_left before _)
    have habort : ((start.run before).run mid).abortReason? (some s) = some failure :=
      h.run_keeps (P := fun e => e.abortReason? (some s) = some failure) (Q := fun _ _ => False)
        (fun h _ _ ha => (move_aborted h.life fun _ _ => by simp [ha]).trans ha)
          (fun m hmem => hm m (by simp [hmem]))
        (fun ⟨_, _, _, _, h⟩ => h) ha
    rw [run_append] at hc hw ⊢
    have hmid (m : Move ν α) (hmem : m ∈ mid) : m.LeavesDelivery := hm m (by simp [hmem])
    obtain ⟨B', -, h'⟩ := h.run hmid
    exact move_withheld h'.life.able.sorted hc (hsignal ▸ habort) hw
  · rintro before m mid after j c plan t s reason rfl hc hsignal hsubmits hquiet hlast
    obtain ⟨B, h⟩ := htended (List.subset_append_left before _)
    have hafter : start.run (before ++ [m]) = (start.run before).move m := run_append ..
    obtain ⟨B₁, -, h₁⟩ := h.move (hm m (by simp))
    have habortable : (((start.run before).move m).run mid).Abortable j t s :=
      h₁.run_keeps (P := fun e => e.Abortable j t s) (fun {e B m} h _ hquiet ha => by
        rw [not_or, not_exists, not_exists] at hquiet
        exact ha.step h hquiet.2 hquiet.1) (fun m hmem => hm m (by simp [hmem])) (hafter ▸ hquiet)
        (hsubmits.abortable h hc hsignal)
    have hmid (m : Move ν α) (hmem : m ∈ mid) : m.LeavesDelivery := hm m (by simp [hmem])
    obtain ⟨B₂, -, h₂⟩ := h₁.run hmid
    have hrecalled := habortable.aborted h₂ reason
    obtain ⟨B₃, -, h₃⟩ := h₂.move (m := .call (.abort s reason)) trivial
    have hhere : start.run (before ++ m :: (mid ++ [.call (.abort s reason)])) =
        (((start.run before).move m).run mid).move (.call (.abort s reason)) := by
      rw [run_append]
      show ((start.run before).move m).run (mid ++ [.call (.abort s reason)]) = _
      rw [run_append]
      rfl
    have hmoves : before ++ m :: (mid ++ .call (.abort s reason) :: after) =
        before ++ m :: (mid ++ [.call (.abort s reason)]) ++ after := by simp
    rw [hmoves, run_append, hhere]
    rw [hhere] at hlast
    have hlater : ∀ m ∈ after, m.LeavesDelivery := fun m hmem => hm m (by simp [hmem])
    have hfails := Fails.run (.inl hrecalled) h₃ hlater hlast
    obtain ⟨B₄, -, h₄⟩ := h₃.run hlater
    exact ⟨hfails.alone h₄, hfails.ends h₄⟩
  · match reason with
    | none => exact .inr ⟨nofun, _, rfl⟩
    | some (.error error) => exact .inl ⟨error, rfl, rfl⟩
    | some (.text _) => exact .inr ⟨nofun, _, rfl⟩

end Strata.Engine

/-! ### A call that is aborted once it has submitted -/

namespace Strata.Engine

namespace Retrying

/-- Memory is short, and a call may be made again once. -/
def start (budget : Int) : Engine Int Bool :=
  { bare { limits := .standard } ({ budget := some budget } : EngineOptions Int) with
    pool := ⟨{ options := ({ budget := some budget } : EngineOptions Int).arena "Session" },
      { limits := .standard }⟩
    config := Config.standard.update { retries := some (some 1) }
    supervised := true }

def before : List (Move Int Bool) := .call .newSignal :: Aborted.call :: List.replicate 4 .fire

def full : Raised := .error (.coded (some .outOfMemory) "page is closing")

def moves (reason : Option Raised) : List (Move Int Bool) :=
  before ++ .fire :: ([] ++ .call (.abort 0 reason) :: List.replicate 8 .fire)

def failure? : JobId × Except Failure (JobValue Int Bool) → Option Failure
  | (_, .error failure) => some failure
  | _ => none

def planned? (c : CompositeCall Int Bool) : Option PlanId :=
  match c.phase with
  | .planned (.ok plan) => some plan
  | _ => none

/-- Whether the next turn is the one with which the first call submits. -/
def submitsNext (e : Engine Int Bool) : Bool :=
  match e.turns with
  | (1, .planned 0) :: _ => true
  | _ => false

theorem planned?_eq {c : CompositeCall Int Bool} {plan : PlanId} (h : planned? c = some plan) :
    c.phase = .planned (.ok plan) := by
  unfold planned? at h
  split at h
  · rename_i heq
    cases h
    exact heq
  · cases h

theorem takes_planned {e : Engine Int Bool} (h : submitsNext e = true) : e.Takes .fire (.planned 0) := by
  unfold submitsNext at h
  split at h
  · rename_i rest hturns
    exact ⟨1, rest, hturns, Nat.le_refl 1⟩
  · cases h

theorem opened (budget : Int) : (start budget).Opened := ⟨{ limits := .standard }, { budget := some budget },
  .object [("outOfMemoryRetries", .number true)], by rfl⟩

theorem submits : ∃ c t, ((start 80).run before).call? 0 = some c ∧ c.signal = some 0 ∧
    ((start 80).run before).SubmitsFor .fire 0 0 t := by
  have hcall : (((start 80).run before).call? 0).toList.any (fun c => c.signal == some 0 && planned? c == some 0) =
      true := by
    decide +kernel
  have hnext : submitsNext ((start 80).run before) = true := by decide +kernel
  have hok : (((start 80).run before).submit 0).1.toOption.isSome = true := by decide +kernel
  have hunaborted : ((start 80).run before).abortReason? (some 0) = none := by decide +kernel
  obtain ⟨c, hc, hcheck⟩ := List.any_eq_true.mp hcall
  obtain ⟨hsignal, hphase⟩ := Bool.and_eq_true_iff.mp hcheck
  have hc : ((start 80).run before).call? 0 = some c := Option.mem_toList.mp hc
  have hsignal : c.signal = some 0 := beq_iff_eq.mp hsignal
  have hphase : c.phase = .planned (.ok 0) := planned?_eq (beq_iff_eq.mp hphase)
  cases ht : (((start 80).run before).submit 0).1 with
  | error failure =>
    rw [ht] at hok
    cases hok
  | ok t =>
    exact ⟨c, t, hc, hsignal, takes_planned hnext, c, hc, hphase, hsignal ▸ hunaborted, ht⟩

end Retrying

open Retrying in
theorem calls_abort_safely_once :
    ((start 80).Opened ∧ (∀ x ∈ (start 80).pool.device.faults, x.1 ∉ deliveryCalls) ∧ ∀ m ∈ moves none,
      m.LeavesDelivery) ∧
    (((start 80).run (moves none)).settled.filter (·.1 == 0) =
      [(0, .error (.aborted "This operation was aborted"))]) := by
  have hd : ∀ x ∈ (start 80).pool.device.faults, x.1 ∉ deliveryCalls := fun x hx => absurd hx List.not_mem_nil
  have hm : ∀ m ∈ moves none, m.LeavesDelivery := by
    simp [moves, before, Aborted.call, Move.LeavesDelivery, Operation.LeavesDelivery]
  have hsafe := calls_abort_safely (opened 80) hd hm
  obtain ⟨c, t, hc, hsignal, hsubmits⟩ := submits
  refine ⟨⟨opened 80, hd, hm⟩, ?_⟩
  have hends := hsafe.rejected before .fire [] (List.replicate 8 .fire) 0 c 0 t 0 none rfl hc hsignal hsubmits
    (by rintro ⟨before, m, after, heq, -⟩; simp at heq) (by rintro ⟨-, -, -, -, -, -, -, hcode, -⟩; cases hcode)
  refine hends.1.resolve_left fun hnone => ?_
  have hended : ((start 80).run (moves none)).settled.any (·.1 == 0) = true := by decide +kernel
  obtain ⟨x, hx, hj⟩ := List.any_eq_true.mp hended
  exact List.not_mem_nil (hnone ▸ List.mem_filter.mpr ⟨hx, hj⟩)

open Retrying in
/-- A call that is aborted for a reason that counts as a lack of memory tries again, and fails for another reason.
-/
theorem abort_tried_again : ∃ c t,
    ((start 80).Opened ∧ (∀ x ∈ (start 80).pool.device.faults, x.1 ∉ deliveryCalls) ∧ ∀ m ∈ moves (some full),
      m.LeavesDelivery) ∧
    ((start 80).run before).call? 0 = some c ∧ c.signal = some 0 ∧ ((start 80).run before).SubmitsFor .fire 0 0 t ∧
    ¬(((start 80).run (moves (some full))).settled.filter (·.1 == 0) = [] ∨
      ((start 80).run (moves (some full))).settled.filter (·.1 == 0) =
        [(0, .error (abortFailure (some full)))]) := by
  obtain ⟨c, t, hc, hsignal, hsubmits⟩ := submits
  refine ⟨c, t, ⟨opened 80, fun x hx => absurd hx List.not_mem_nil, ?_⟩, hc, hsignal, hsubmits, ?_⟩
  · simp [moves, before, Aborted.call, Move.LeavesDelivery, Operation.LeavesDelivery]
  · have hfailed : (((start 80).run (moves (some full))).settled.filter (·.1 == 0)).map failure? =
        [some (.of (.budgetExceeded 16 80 "80"))] := by decide +kernel
    rintro (heq | heq)
    · rw [heq] at hfailed
      cases hfailed
    · rw [heq] at hfailed
      cases hfailed

end Strata.Engine
