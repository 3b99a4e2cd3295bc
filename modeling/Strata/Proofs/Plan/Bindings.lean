import Strata.Proofs.Plan.Folding

/-!
# What the stages of a made plan refer to

`Drawn` lists the stages of a plan; here each is looked up by what it is: an upload is one of the caller's or fills
a parameter block, a dispatch carries out one step (`Drawn.dispatch`), the download reads the last result. All
handles but those of the caller's uploads are live once the plan is made (`emit_live`).
-/

namespace Strata

variable {ν α : Type} [Measure ν]

open Engine.Encoder (works)

/-- A stage names a slot: it allocates it, or refers to it. -/
def Stage.Names (k : Handle) : Stage ν α → Prop
  | .allocate handle _ => k = handle
  | s => k ∈ s.handles

def Stage.allocated? : Stage ν α → Option Handle
  | .allocate handle _ => some handle
  | _ => none

namespace Draft

/-! ## How a plan is laid out -/

namespace Emission

theorem dispatchStages_getElem? {width height : ν} {index : Nat} {backdrop : Option Handle}
    {steps : List (PlanStep ν α)} {pipelines : List Pipeline} {results blocks : List Handle} {s : Stage ν α}
    (h : s ∈ dispatchStages width height index backdrop steps pipelines results blocks) :
    ∃ (i : Nat) (step : PlanStep ν α) (pipeline : Pipeline) (result block : Handle), steps[i]? = some step ∧
      pipelines[i]? = some pipeline ∧ results[i]? = some result ∧ blocks[i]? = some block ∧
      s = dispatch width height (index + i) step pipeline (if i = 0 then backdrop else results[i - 1]?)
      result block := by
  induction steps generalizing index backdrop pipelines results blocks with
  | nil => exact absurd h List.not_mem_nil
  | cons step steps ih =>
    cases pipelines with
    | nil => exact absurd h List.not_mem_nil
    | cons pipeline pipelines =>
      cases results with
      | nil => exact absurd h List.not_mem_nil
      | cons result results =>
        cases blocks with
        | nil => exact absurd h List.not_mem_nil
        | cons block blocks =>
          rcases List.mem_cons.mp h with rfl | h
          · exact ⟨0, step, pipeline, result, block, rfl, rfl, rfl, rfl, rfl⟩
          · obtain ⟨i, step', pipeline', result', block', hs, hp, hr, hb, rfl⟩ := ih h
            refine ⟨i + 1, step', pipeline', result', block', hs, hp, hr, hb, ?_⟩
            rw [Nat.add_right_comm, Nat.add_assoc, if_neg (Nat.succ_ne_zero i)]
            cases i <;> rfl

end Emission

section
variable [Channel α] [Stored α]

theorem emit_ok {draft : Draft ν α} {pipelines : List Pipeline} {pool pool' : Pool ν α} {plan : Plan ν α}
    (h : draft.emit pipelines pool = (.ok plan, pool')) :
    ∃ canvas e, draft.recheck pool.arena = .ok canvas ∧
      Emission.layOut draft pipelines canvas.width canvas.height ⟨pool, [], []⟩ = (.ok plan, e) ∧
      pool' = e.pool := by
  unfold emit at h
  split at h
  · cases h
  · split at h
    · rename_i heq
      cases h
      exact ⟨_, _, ‹_›, heq, rfl⟩
    · cases (Attempt.endWith_eq_ok (congrArg Prod.fst h)).1

end

/-! ## Stage by stage -/

namespace Drawn

variable [Stored α] {draft : Draft ν α} {pipelines : List Pipeline} {width height : ν}
  {results blocks : List Handle} {last : Handle} {plan : Plan ν α}

theorem upload (h : draft.Drawn pipelines width height results blocks last plan) {k : Handle} {data : Block α} :
    .upload k data ∈ plan.stages ↔
      ⟨k, data⟩ ∈ draft.uploads ++ Emission.blockUploads width height draft.steps blocks := by
  have hworks : .upload k data ∈ plan.stages ↔ .upload k data ∈ works plan.stages :=
    ⟨fun hm => List.mem_filter.mpr ⟨hm, rfl⟩, fun hm => (List.mem_filter.mp hm).1⟩
  rw [hworks, h.stages, List.mem_append, List.mem_append]
  constructor
  · rintro ((hm | hm) | hm)
    · obtain ⟨u, hu, heq⟩ := List.mem_map.mp hm
      cases heq
      exact hu
    · obtain ⟨_, _, _, _, _, heq, -⟩ := Emission.mem_dispatchStages hm
      cases heq
    · cases List.mem_singleton.mp hm
  · exact fun hm => .inl (.inl (List.mem_map.mpr ⟨_, hm, rfl⟩))

theorem download (h : draft.Drawn pipelines width height results blocks last plan) {s : Handle} {d : Readback}
    {bytes : ν} (hm : .download s d bytes ∈ plan.stages) :
    s = last ∧ d = draft.destination ∧ bytes = workingBytes width height := by
  have hworks : .download s d bytes ∈ works plan.stages := List.mem_filter.mpr ⟨hm, rfl⟩
  rw [h.stages, List.mem_append, List.mem_append] at hworks
  rcases hworks with (hm | hm) | hm
  · obtain ⟨u, -, heq⟩ := List.mem_map.mp hm
    cases heq
  · obtain ⟨_, _, _, _, _, heq, -⟩ := Emission.mem_dispatchStages hm
    cases heq
  · cases List.mem_singleton.mp hm
    exact ⟨rfl, rfl, rfl⟩

/-- A dispatch carries out one step, on the result of the step before. -/
theorem dispatch (h : draft.Drawn pipelines width height results blocks last plan) {label : String} {p : Pipeline}
    {b : Bindings} {x y : ν} (hm : .dispatch label p b x y ∈ plan.stages) :
    ∃ (i : Nat) (step : PlanStep ν α), draft.steps[i]? = some step ∧ pipelines[i]? = some p ∧
      results[i]? = some b.result ∧ blocks[i]? = some b.params ∧ b.source = step.source ∧
      b.backdrop = (if i = 0 then none else results[i - 1]?) ∧
      (x, y) = workgroupGrid width height (Measure.ofNat workgroupEdge) := by
  have hworks : .dispatch label p b x y ∈ works plan.stages := List.mem_filter.mpr ⟨hm, rfl⟩
  rw [h.stages, List.mem_append, List.mem_append] at hworks
  rcases hworks with (hm | hm) | hm
  · obtain ⟨u, -, heq⟩ := List.mem_map.mp hm
    cases heq
  · obtain ⟨i, step, pipeline, result, block, hs, hp, hr, hb, heq⟩ := Emission.dispatchStages_getElem? hm
    unfold Emission.dispatch at heq
    dsimp only at heq
    cases heq
    exact ⟨i, step, hs, hp, hr, hb, rfl, rfl, rfl⟩
  · cases List.mem_singleton.mp hm

/-- The backdrop of a dispatch is a result, and not its own. -/
theorem backdrop (h : draft.Drawn pipelines width height results blocks last plan) {label : String} {p : Pipeline}
    {b : Bindings} {x y : ν} (hm : .dispatch label p b x y ∈ plan.stages) {k : Handle} (hk : b.backdrop = some k) :
    k ∈ results ∧ k ≠ b.result := by
  obtain ⟨i, step, -, -, hr, -, -, hb, -⟩ := h.dispatch hm
  rw [hb] at hk
  split at hk
  · cases hk
  · rename_i hi
    refine ⟨List.mem_of_getElem? hk, ?_⟩
    obtain ⟨hlt, rfl⟩ := List.getElem?_eq_some_iff.mp hk
    obtain ⟨hlt', he⟩ := List.getElem?_eq_some_iff.mp hr
    rw [← he]
    have hnext := h.chain.getElem (i - 1) (by omega)
    simpa only [Nat.sub_add_cancel (Nat.one_le_iff_ne_zero.mpr hi)] using hnext

end Drawn

/-! ## What is live -/

namespace Emission

/-- The stages allocate what is owned, each slot once and in order. -/
def Lists (e : Emission ν α) : Prop := e.stages.filterMap Stage.allocated? = e.owned

omit [Measure ν] in
theorem Lists.append {e : Emission ν α} (h : e.Lists) {more : List (Stage ν α)}
    (hm : ∀ s ∈ more, s.allocated? = none) : Lists { e with stages := e.stages ++ more } := by
  show (e.stages ++ more).filterMap Stage.allocated? = e.owned
  rw [List.filterMap_append, List.filterMap_eq_nil_iff.mpr hm, List.append_nil]
  exact h

theorem Lists.allocate {e : Emission ν α} (h : e.Lists) (purpose : AllocationPurpose) (width height : ν) :
    (e.allocate purpose width height).2.Lists := by
  have hall (format : SlotFormat ν) (size : ν) : Lists (((e.pool.allocate format size).lift fun pool =>
      { e with pool }).andThen fun handle (e : Emission ν α) => ((.ok handle : Except Failure Handle),
        { e with owned := e.owned ++ [handle], stages := e.stages ++ [.allocate handle purpose] })).2 := by
    generalize e.pool.allocate format size = r
    obtain ⟨r, pool⟩ := r
    cases r with
    | error failure => exact h
    | ok handle =>
      show (e.stages ++ [Stage.allocate handle purpose]).filterMap Stage.allocated? = e.owned ++ [handle]
      rw [List.filterMap_append, show e.stages.filterMap Stage.allocated? = e.owned from h]
      rfl
  cases purpose <;> exact hall _ _

theorem Lists.images {e : Emission ν α} (h : e.Lists) (width height : ν) (count : Nat) (spare : List Handle)
    (previous : Option Handle) : (images width height count spare previous e).2.Lists := by
  induction count generalizing spare previous e with
  | zero => exact h
  | succ count ih =>
    cases spare with
    | cons handle spare => exact Attempt.andThen_keeps (P := Lists) (ih h _ _) fun _ _ => ih h _ _
    | nil =>
      refine Attempt.andThen_keeps (P := Lists) (h.allocate .intermediate width height) fun handle _ => ?_
      have hnext := ih (h.allocate .intermediate width height) previous.toList (some handle)
      exact Attempt.andThen_keeps (P := Lists) hnext fun _ _ => hnext

omit [Measure ν] in
theorem Lists.push {e : Emission ν α} (h : e.Lists) {s : Stage ν α} (hs : s.allocated? = none) :
    (e.push s).Lists := by
  unfold Emission.push
  refine h.append fun t ht => ?_
  split at ht
  · rcases List.mem_cons.mp ht with rfl | ht
    · rfl
    · rw [List.mem_singleton.mp ht, hs]
  · rw [List.mem_singleton.mp ht, hs]

variable [Stored α]

theorem Lists.paramBlocks {e : Emission ν α} (h : e.Lists) (width height : ν) (steps : List (PlanStep ν α)) :
    (paramBlocks width height steps e).2.Lists := by
  induction steps generalizing e with
  | nil => exact h
  | cons step steps ih =>
    refine Attempt.andThen_keeps (P := Lists) (h.allocate .params width height) fun handle _ => ?_
    have hup : Lists { (e.allocate .params width height).2 with stages :=
      (e.allocate .params width height).2.stages ++
        [.upload handle (params width height step).pack] } :=
      (h.allocate .params width height).append fun s hs => by rw [List.mem_singleton.mp hs]; rfl
    exact Attempt.andThen_keeps (P := Lists) (ih hup) fun _ _ => ih hup

/-- The stages of a plan allocate what it owns. -/
theorem layOut_lists [Channel α] {draft : Draft ν α} {pipelines : List Pipeline} {width height : ν}
    {pool : Pool ν α} {plan : Plan ν α} {e : Emission ν α}
    (h : layOut draft pipelines width height ⟨pool, [], []⟩ = (.ok plan, e)) :
    plan.stages.filterMap Stage.allocated? = plan.owned := by
  obtain ⟨results, e₁, blocks, e₂, last, himages, hblocks, -, rfl, rfl⟩ := layOut_ok h
  have hstart : Lists (⟨pool, [], draft.uploads.map fun u => .upload u.handle u.data⟩ : Emission ν α) := by
    refine List.filterMap_eq_nil_iff.mpr fun s hs => ?_
    obtain ⟨u, -, rfl⟩ := List.mem_map.mp hs
    rfl
  have h₁ := hstart.images width height draft.steps.length [] none
  rw [himages] at h₁
  have h₂ := h₁.paramBlocks width height draft.steps
  rw [hblocks] at h₂
  refine Lists.push ?_ rfl
  refine List.foldlRecOn (motive := Lists) _ _ h₂ fun e he s hs => he.push ?_
  obtain ⟨_, _, _, _, _, rfl, -⟩ := mem_dispatchStages hs
  rfl

end Emission

variable [Channel α] [Stored α] {draft : Draft ν α} {pipelines : List Pipeline} {pool pool' : Pool ν α}
  {plan : Plan ν α}

/-- Once a plan is made, every slot that its stages name is live, but for those that only uploads of the caller go
to. -/
theorem emit_live (hs : pool.Sound) (h : draft.emit pipelines pool = (.ok plan, pool')) :
    ∀ s ∈ plan.stages, ∀ k, s.Names k →
      pool'.arena.contains k = true ∨ ∃ data, s = .upload k data ∧ ⟨k, data⟩ ∈ draft.uploads := by
  obtain ⟨r, hr, results, blocks, last, hdrawn, hprovided⟩ := emit_drawn hs h
  obtain ⟨grants, hgains, howned⟩ := hprovided.gains
  obtain ⟨canvas, e, -, hlaid, -⟩ := emit_ok h
  -- what the plan owns became live as it was made
  have hown {k : Handle} (hk : k ∈ plan.owned) : pool'.arena.contains k = true :=
    (hgains.contains k).mpr (.inr (howned ▸ hk))
  have hresult {k : Handle} (hk : k ∈ results) : pool'.arena.contains k = true := hown (hdrawn.owned k (.inl hk))
  have hblock {k : Handle} (hk : k ∈ blocks) : pool'.arena.contains k = true := hown (hdrawn.owned k (.inr hk))
  intro s hs k hk
  cases s with
  | allocate handle purpose =>
    obtain rfl : k = handle := hk
    have hlisted := Emission.layOut_lists hlaid
    exact .inl (hown (hlisted ▸ List.mem_filterMap.mpr ⟨_, hs, rfl⟩))
  | upload handle data =>
    obtain rfl : k = handle := List.mem_singleton.mp hk
    rcases List.mem_append.mp (hdrawn.upload.mp hs) with hu | hu
    · exact .inr ⟨data, rfl, hu⟩
    · obtain ⟨x, hx, heq⟩ := List.mem_map.mp hu
      cases heq
      exact .inl (hblock (List.of_mem_zip hx).2)
  | dispatch label p b x y =>
    obtain ⟨i, step, hstep, -, hr, hb, hsource, -, -⟩ := hdrawn.dispatch hs
    rcases List.mem_append.mp hk with hk | hk
    · exact .inl (hresult (hdrawn.backdrop hs (Option.mem_toList.mp hk)).1)
    · simp only [List.mem_cons, List.not_mem_nil, or_false] at hk
      rcases hk with rfl | rfl | rfl
      · rw [hsource]
        exact .inl ((hgains.contains _).mpr (.inl (emit_sources h step (List.mem_of_getElem? hstep))))
      · exact .inl (hresult (List.mem_of_getElem? hr))
      · exact .inl (hblock (List.mem_of_getElem? hb))
  | barrier => cases hk
  | download source destination bytes =>
    obtain ⟨rfl, rfl, -⟩ := hdrawn.download hs
    simp only [Stage.Names, Stage.handles, List.mem_cons, List.not_mem_nil, or_false] at hk
    rcases hk with rfl | rfl
    · exact .inl (hresult (List.mem_of_getLast? hdrawn.last))
    · exact .inl ((hgains.contains _).mpr (.inl (Arena.contains_of_resolve hr)))

/-- No dispatch reads the slot that it writes. -/
theorem emit_apart (hs : pool.Sound) (h : draft.emit pipelines pool = (.ok plan, pool')) {label : String}
    {p : Pipeline} {b : Bindings} {x y : ν} (hm : .dispatch label p b x y ∈ plan.stages) : b.result ∉ b.reads := by
  obtain ⟨r, hr, results, blocks, last, hdrawn, hprovided⟩ := emit_drawn hs h
  obtain ⟨grants, hgains, howned⟩ := hprovided.gains
  obtain ⟨i, step, hstep, -, hr, hb, hsource, -, -⟩ := hdrawn.dispatch hm
  have hresult := List.mem_of_getElem? hr
  intro hk
  rcases List.mem_append.mp hk with hk | hk
  · exact (hdrawn.backdrop hm (Option.mem_toList.mp hk)).2 rfl
  · simp only [List.mem_cons, List.not_mem_nil, or_false] at hk
    rcases hk with hk | hk
    · have hlive := emit_sources h step (List.mem_of_getElem? hstep)
      rw [← hsource, ← hk] at hlive
      exact hgains.not_granted hlive (howned ▸ hdrawn.owned _ (.inl hresult))
    · exact hdrawn.apart _ hresult (hk ▸ List.mem_of_getElem? hb)

end Draft

omit [Measure ν] in
/-- At any time, the live handles are told apart by the places of their slots. -/
theorem Arena.contains_index {arena : Arena ν} {h k : Handle} (hh : arena.contains h = true)
    (hk : arena.contains k = true) (he : h.index = k.index) : h = k := by
  obtain ⟨i, rfl, -⟩ := Arena.contains_iff.mp hh
  obtain ⟨j, rfl, -⟩ := Arena.contains_iff.mp hk
  cases he
  rfl

end Strata
