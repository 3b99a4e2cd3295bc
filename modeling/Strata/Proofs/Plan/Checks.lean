import Strata.Proofs.Plan.Layout

/-!
# What has passed the checks

The checks of a draft, turned around: what a destination (`of_checkDestination`), a descriptor
(`checkStep_checked`), an upload and a whole stack (`check_passed`) are known to be once they have passed.
`recheck_stale` says what the second look at the slots fails with.
-/

namespace Strata

variable {ν α : Type}

theorem Arena.resolve_stale {arena : Arena ν} {k : Handle} {failure : Failure}
    (h : arena.resolve k = .error failure) :
    failure = .of (.staleHandle k) := by
  unfold resolve locate at h
  split at h
  · cases h
    rfl
  · split at h
    · cases h
    · cases h
      rfl

theorem Pool.Sound.resolve_cases {pool : Pool ν α} (h : pool.Sound) (k : Handle) :
    (∃ r, pool.arena.resolve k = .ok r ∧ pool.arena.contains k = true) ∨
      pool.arena.resolve k = .error (.of (.staleHandle k)) ∧ pool.arena.contains k = false := by
  cases hr : pool.arena.resolve k with
  | ok r => exact .inl ⟨r, rfl, Arena.contains_of_resolve hr⟩
  | error failure =>
    refine .inr ⟨by rw [Arena.resolve_stale hr], ?_⟩
    rw [Bool.eq_false_iff]
    intro hc
    obtain ⟨r, hr'⟩ := h.resolve_of_contains hc
    rw [hr] at hr'
    cases hr'

variable [Measure ν]

namespace Draft

variable {arena : Arena ν} {capabilities : Capabilities ν} {library : Library} {stack : List (BlendDescriptor ν α)}
  {uploads : List (Upload α)} {draft : Draft ν α}

/-! ## One by one -/

theorem of_checkDestination {destination : Handle} {r : SlotRef ν}
    (h : checkDestination arena capabilities destination = .ok r) :
    arena.resolve destination = .ok r ∧ r.format.usage = .readback ∧
      ¬Measure.ofNat r.size < workingBytes r.format.width r.format.height ∧
      capabilities.fits (workingBytes r.format.width r.format.height) = true := by
  unfold checkDestination at h
  cases hd : arena.resolve destination with
  | error failure =>
    rw [hd] at h
    cases h
  | ok r' =>
    rw [hd] at h
    simp only [bind, Except.bind, pure, Except.pure, throw, throwThe, MonadExceptOf.throw] at h
    split at h
    · cases h
    · rename_i husage
      split at h
      · cases h
      · rename_i hsize
        split at h
        · cases h
        · rename_i hcanvas
          cases h
          refine ⟨rfl, not_not.mp husage, hsize, ?_⟩
          unfold checkCanvas at hcanvas
          dsimp only at hcanvas
          split at hcanvas
          · cases hcanvas
          · rename_i hfits
            simpa using hfits

structure Checked (arena : Arena ν) (capabilities : Capabilities ν) (destination : Handle)
    (width height : ν) (index : Nat) (d : BlendDescriptor ν α) (step : PlanStep ν α) (r : SlotRef ν)
    (format : String) : Prop where
  destination : d.destination = destination
  resolves : arena.resolve d.source = .ok r
  pixels : r.format.pixels = some format
  usage : r.format.usage = .storage
  fits : capabilities.fits (Measure.ofNat r.size) = true
  whole : index = 0 → step.placement.same (.ofSize width height) = true
  inside : (Rectangle.ofSize width height).contains step.placement = true
  size : (r.format.width == step.placement.width && r.format.height == step.placement.height) = true
  step : step = ⟨d.source, ⟨if index = 0 then copyMode else d.mode, d.space, format⟩,
    d.placement.getD (.ofSize width height), d.opacity⟩

theorem checkStep_checked {destination : Handle} {width height : ν} {index : Nat} {d : BlendDescriptor ν α}
    {step : PlanStep ν α} (h : checkStep arena capabilities destination width height index d = .ok step) :
    ∃ r format, Checked arena capabilities destination width height index d step r format := by
  unfold checkStep at h
  simp only [bind, Except.bind, pure, Except.pure, throw, throwThe, MonadExceptOf.throw] at h
  split at h
  · cases h
  · rename_i hdest
    cases hr : arena.resolve d.source with
    | error failure =>
      rw [hr] at h
      cases h
    | ok r =>
      rw [hr] at h
      dsimp only at h
      cases hf : r.format.pixels with
      | none =>
        rw [hf] at h
        cases h
      | some format =>
        rw [hf] at h
        dsimp only at h
        refine ⟨r, format, ?_⟩
        split at h
        · cases h
        · rename_i husage
          split at h
          · cases h
          · rename_i hfits
            split at h
            · cases h
            · rename_i hwhole
              split at h
              · cases h
              · rename_i hinside
                split at h
                · cases h
                · rename_i hsize
                  cases h
                  refine ⟨not_not.mp hdest, hr, hf, not_not.mp husage, by
                    simpa using hfits, fun hi => ?_, by simpa using hinside, by simpa using hsize, rfl⟩
                  simpa [hi] using hwhole

theorem checkSteps_checked {destination : Handle} {width height : ν} {index : Nat} {steps : List (PlanStep ν α)}
    (h : checkSteps arena capabilities destination width height index stack = .ok steps) :
    steps.length = stack.length ∧ ∀ (i : Nat) d step, stack[i]? = some d → steps[i]? = some step →
      ∃ r format, Checked arena capabilities destination width height (index + i) d step r format := by
  induction stack generalizing index steps with
  | nil =>
    cases h
    exact ⟨rfl, fun i d step hd => by cases hd⟩
  | cons d stack ih =>
    unfold checkSteps at h
    simp only [bind, Except.bind, pure, Except.pure] at h
    split at h
    · cases h
    · rename_i step hstep
      split at h
      · cases h
      · rename_i rest hrest
        cases h
        obtain ⟨hlength, hall⟩ := ih hrest
        refine ⟨congrArg (· + 1) hlength, fun i d' step' hd hs => ?_⟩
        cases i with
        | zero =>
          cases hd
          cases hs
          exact checkStep_checked hstep
        | succ i =>
          have hnext := hall i d' step' hd hs
          rwa [Nat.add_right_comm] at hnext

omit [Measure ν] in
theorem of_checkUpload {u : Upload α} (h : checkUpload arena u = .ok ()) :
    ∃ r, arena.resolve u.handle = .ok r ∧ u.data.size ≤ r.size := by
  unfold checkUpload at h
  cases hr : arena.resolve u.handle with
  | error failure =>
    rw [hr] at h
    cases h
  | ok r =>
    rw [hr] at h
    simp only [bind, Except.bind, throw, throwThe, MonadExceptOf.throw] at h
    split at h
    · cases h
    · exact ⟨r, rfl, by omega⟩

/-! ## The stack -/

/-- What a stack and its uploads are known to be once they have passed. -/
structure Passed (arena : Arena ν) (capabilities : Capabilities ν) (stack : List (BlendDescriptor ν α))
    (uploads : List (Upload α)) (draft : Draft ν α) (base : BlendDescriptor ν α) (r : SlotRef ν) : Prop where
  head : stack.head? = some base
  target : draft.destination = base.destination
  carried : draft.uploads = uploads
  destination : arena.resolve base.destination = .ok r
  room : ¬Measure.ofNat r.size < workingBytes r.format.width r.format.height
  fits : capabilities.fits (workingBytes r.format.width r.format.height) = true
  steps : draft.steps.length = stack.length ∧ ∀ (i : Nat) d step, stack[i]? = some d → draft.steps[i]? = some step →
    ∃ s format, Checked arena capabilities base.destination r.format.width r.format.height i d step s format
  uploads : ∀ u ∈ uploads, ∃ s, arena.resolve u.handle = .ok s ∧ u.data.size ≤ s.size

theorem check_passed (h : check arena capabilities library stack uploads = .ok draft) :
    ∃ base r, Passed arena capabilities stack uploads draft base r := by
  unfold check at h
  cases stack with
  | nil =>
    cases ho : arena.checkOpen with
    | error failure =>
      rw [ho] at h
      cases h
    | ok u =>
      rw [ho] at h
      cases h
  | cons base above =>
    simp only [List.head?_cons, bind, Except.bind, pure, Except.pure, throw, throwThe, MonadExceptOf.throw] at h
    split at h
    · cases h
    · split at h
      · cases h
      · rename_i r hr
        split at h
        · cases h
        · rename_i steps hsteps
          split at h
          · cases h
          · rename_i huploads
            split at h
            · cases h
            · cases h
              obtain ⟨hdest, -, hroom, hfits⟩ := of_checkDestination hr
              obtain ⟨hlength, hall⟩ := checkSteps_checked hsteps
              refine ⟨base, r, rfl, rfl, rfl, hdest, hroom, hfits, ⟨hlength, fun i d step hd hs => ?_⟩,
                fun u hu => of_checkUpload (forM_eq_ok.mp huploads u hu)⟩
              have hstep := hall i d step hd hs
              rwa [Nat.zero_add] at hstep

theorem Passed.step {base : BlendDescriptor ν α} {r : SlotRef ν}
    (h : Passed arena capabilities stack uploads draft base r) {i : Nat} {step : PlanStep ν α}
    (hs : draft.steps[i]? = some step) : ∃ d s format, stack[i]? = some d ∧
      Checked arena capabilities base.destination r.format.width r.format.height i d step s format := by
  obtain ⟨hlt, -⟩ := List.getElem?_eq_some_iff.mp hs
  have hlt' : i < stack.length := h.steps.1 ▸ hlt
  have hd : stack[i]? = some stack[i] := List.getElem?_eq_getElem hlt'
  obtain ⟨s, format, hchecked⟩ := h.steps.2 i _ step hd hs
  exact ⟨_, s, format, hd, hchecked⟩

/-! ## The second look -/

/-- The slots that a draft is checked for again. -/
def needs (draft : Draft ν α) : List Handle := draft.destination :: draft.steps.map (·.source)

theorem Passed.needs {base : BlendDescriptor ν α} {r : SlotRef ν}
    (h : Passed arena capabilities stack uploads draft base r)
    {k : Handle} : k ∈ draft.needs ↔ ∃ d ∈ stack, k = d.source ∨ k = d.destination := by
  have hstep {i : Nat} {d : BlendDescriptor ν α} (hd : stack[i]? = some d) :
      ∃ step ∈ draft.steps, step.source = d.source ∧ d.destination = draft.destination := by
    obtain ⟨hlt, -⟩ := List.getElem?_eq_some_iff.mp hd
    have hlt' : i < draft.steps.length := h.steps.1 ▸ hlt
    obtain ⟨s, format, hc⟩ := h.steps.2 i d _ hd (List.getElem?_eq_getElem hlt')
    exact ⟨_, List.getElem_mem hlt', by rw [hc.step], hc.destination.trans h.target.symm⟩
  constructor
  · intro hk
    rcases List.mem_cons.mp hk with rfl | hk
    · exact ⟨base, List.mem_of_mem_head? h.head, .inr h.target⟩
    · obtain ⟨step, hs, rfl⟩ := List.mem_map.mp hk
      obtain ⟨i, hi⟩ := List.getElem?_of_mem hs
      obtain ⟨d, s, format, hd, hc⟩ := h.step hi
      exact ⟨d, List.mem_of_getElem? hd, .inl (by rw [hc.step])⟩
  · rintro ⟨d, hd, hk⟩
    obtain ⟨i, hi⟩ := List.getElem?_of_mem hd
    obtain ⟨step, hs, hsource, hdest⟩ := hstep hi
    rcases hk with rfl | rfl
    · exact List.mem_cons_of_mem _ (List.mem_map.mpr ⟨step, hs, hsource⟩)
    · exact List.mem_cons.mpr (.inl hdest)

omit [Measure ν] in
theorem recheck_stale (ho : arena.closing = none) {k : Handle} (hk : k ∈ draft.needs) {failure : Failure}
    (h : arena.resolve k = .error failure) :
    ∃ k ∈ draft.needs, arena.resolve k = .error (.of (.staleHandle k)) ∧
      draft.recheck arena = .error (.of (.staleHandle k)) := by
  have hopen : arena.checkOpen = .ok () := by
    unfold Arena.checkOpen
    rw [ho]
  unfold recheck
  rw [hopen]
  cases hd : arena.resolve draft.destination with
  | error failure =>
    obtain rfl := Arena.resolve_stale hd
    exact ⟨draft.destination, List.mem_cons_self .., hd, rfl⟩
  | ok r =>
    -- the first source that is not there is what the check stops at
    have hsteps (steps : List (PlanStep ν α)) (hk : k ∈ steps.map (·.source)) :
        ∃ k ∈ steps.map (·.source), arena.resolve k = .error (.of (.staleHandle k)) ∧ (steps.forM fun step => do
          let _ ← arena.resolve step.source
          return ()) = (.error (.of (.staleHandle k)) : Except Failure Unit) := by
      induction steps with
      | nil => exact absurd hk List.not_mem_nil
      | cons step steps ih =>
        have hfirst : (List.forM (step :: steps) fun step => do
            let _ ← arena.resolve step.source
            return ()) = ((arena.resolve step.source >>= fun _ => pure ()) >>= fun _ =>
              List.forM steps fun step => do
              let _ ← arena.resolve step.source
              return () : Except Failure Unit) := rfl
        cases hs : arena.resolve step.source with
        | error failure =>
          obtain rfl := Arena.resolve_stale hs
          refine ⟨step.source, List.mem_cons_self .., hs, ?_⟩
          rw [hfirst, hs]
          rfl
        | ok s =>
          rcases List.mem_cons.mp hk with rfl | hk
          · rw [hs] at h
            cases h
          · obtain ⟨k', hk', hstale, hfail⟩ := ih hk
            refine ⟨k', List.mem_cons_of_mem _ hk', hstale, ?_⟩
            rw [hfirst, hs]
            exact hfail
    rcases List.mem_cons.mp hk with rfl | hk
    · rw [hd] at h
      cases h
    · obtain ⟨k', hk', hstale, hfail⟩ := hsteps draft.steps hk
      refine ⟨k', List.mem_cons_of_mem _ hk', hstale, ?_⟩
      show ((draft.steps.forM fun step => do
        let _ ← arena.resolve step.source
        return ()) >>= fun _ => pure r.format) = _
      rw [hfail]
      rfl

theorem emit_stale [Channel α] [Stored α] {pool : Pool ν α} (hs : pool.Sound) (ho : pool.arena.closing = none)
    {k : Handle} (hk : k ∈ draft.needs) (hstale : pool.arena.contains k = false) (pipelines : List Pipeline) :
    ∃ k ∈ draft.needs, pool.arena.contains k = false ∧
      draft.emit pipelines pool = (.error (.of (.staleHandle k)), pool) := by
  have hgone : pool.arena.resolve k = .error (.of (.staleHandle k)) := by
    rcases hs.resolve_cases k with ⟨r, -, hc⟩ | ⟨h, -⟩
    · rw [hc] at hstale
      cases hstale
    · exact h
  obtain ⟨k', hk', hgone', hfail⟩ := recheck_stale ho hk hgone
  refine ⟨k', hk', ?_, ?_⟩
  · rcases hs.resolve_cases k' with ⟨r, hr, -⟩ | ⟨-, h⟩
    · rw [hgone'] at hr
      cases hr
    · exact h
  · unfold emit
    rw [hfail]

end Draft

end Strata
