import Strata.Proofs.Engine.Asking
import Strata.Proofs.Engine.Pipelines

/-!
# Planning keeps every promise

A call asks for the pipelines of its steps (`beginPlanning_proceeds`) and takes them as they arrive
(`pipelineArrived_proceeds`). The plan that is made then carries the order of the call out over the slots
of the call (`planReady_proceeds`).
-/

namespace Strata

variable {α : Type}

variable [Channel α] {G : Ledger α} {e : Engine Int α}

/-! ## Asking for the pipelines -/

namespace Draft

theorem stackSteps_key {width height : Int} {bottom : Bool} {layers : List (Layer Int α)} {sources : List Handle}
    {i : Nat} {step : PlanStep Int α} (h : (stackSteps width height bottom layers sources)[i]? = some step) :
    ∃ l, layers[i]? = some l ∧ step.key = l.key (bottom && i == 0) := by
  induction layers generalizing bottom sources i with
  | nil => cases h
  | cons l layers ih =>
    cases sources with
    | nil => cases h
    | cons source sources =>
      cases i with
      | zero =>
        cases h
        exact ⟨l, rfl, by simp [Layer.step]⟩
      | succ i =>
        obtain ⟨l', hl, hk⟩ := ih h
        exact ⟨l', hl, by simpa using hk⟩

theorem length_stackSteps {width height : Int} {bottom : Bool} {layers : List (Layer Int α)} {sources : List Handle}
    (h : sources.length = layers.length) :
    (stackSteps width height bottom layers sources).length = layers.length := by
  induction layers generalizing bottom sources with
  | nil => rfl
  | cons l layers ih =>
    cases sources with
    | nil => cases h
    | cons source sources => exact congrArg (· + 1) (ih (Nat.succ.inj h))

end Draft

namespace Engine

variable [Stored α] [Transfer α]

theorem requestSteps_proceeds (hs : e.Safe G) {job : JobId} {i : Nat} {steps : List (PlanStep Int α)}
    (hw : ∀ (k : Nat) step, steps[k]? = some step → G.Expects step.key.text (.step job (i + k))) :
    e.Proceeds G (e.requestSteps job i steps).2 ∧
      ∀ (k : Nat) result, (e.requestSteps job i steps).1[k]? = some (some result) →
        Answers G (.step job (i + k)) result := by
  induction steps generalizing e i with
  | nil => exact ⟨.refl hs, fun k result h => by cases h⟩
  | cons step rest ih =>
    obtain ⟨hstep, hnow⟩ := requestPipeline_proceeds hs (hw 0 step rfl)
    obtain ⟨hrest, hlater⟩ := ih hstep.safe (i := i + 1) fun k s hk => by
      have := hw (k + 1) s hk
      rwa [Nat.add_right_comm, Nat.add_assoc]
    refine ⟨hstep.trans hrest, fun k result h => ?_⟩
    cases k with
    | zero => exact hnow result (Option.some.inj h)
    | succ k =>
      have := hlater k result h
      rwa [Nat.add_right_comm, Nat.add_assoc] at this

theorem arriveNow_proceeds (hs : e.Safe G) {job : JobId} {i : Nat}
    {replies : List (Option (Except Failure Pipeline))}
    (hr : ∀ (k : Nat) result, replies[k]? = some (some result) → Answers G (.step job (i + k)) result) :
    e.Proceeds G (e.arriveNow job i replies) := by
  induction replies generalizing e i with
  | nil => exact .refl hs
  | cons reply rest ih =>
    have hrest (k : Nat) result (h : rest[k]? = some (some result)) : Answers G (.step job (i + 1 + k)) result := by
      have := hr (k + 1) result h
      rwa [Nat.add_right_comm, Nat.add_assoc]
    cases reply with
    | none => exact ih hs hrest
    | some result =>
      have hstep := answer_proceeds hs (hr 0 result rfl)
      exact hstep.trans (ih hstep.safe hrest)

theorem beginPlanning_proceeds (hs : e.Safe G) {job : JobId} {o : Order α} (ho : G job = some o)
    {stack : List (BlendDescriptor Int α)} {uploads : List (Upload α)}
    (hk : ∀ draft, Draft.check e.pool.arena e.capabilities e.cache.library stack uploads = .ok draft →
      ∀ (i : Nat) step, draft.steps[i]? = some step →
        ∃ l, o.layers[i]? = some l ∧ step.key = l.key (i == 0)) :
    e.Proceeds G (e.beginPlanning job stack uploads).2 := by
  unfold beginPlanning
  split
  · exact .refl hs
  · rename_i draft hdraft
    have hw (k : Nat) step (h : draft.steps[k]? = some step) : G.Expects step.key.text (.step job (0 + k)) := by
      obtain ⟨l, hl, hkey⟩ := hk draft hdraft k step h
      rw [Nat.zero_add]
      exact ⟨o, l, ho, hl, congrArg _ hkey⟩
    obtain ⟨hreq, hans⟩ := requestSteps_proceeds hs hw
    exact hreq.trans (arriveNow_proceeds hreq.safe hans)

/-! ## Pipelines arrive -/

omit [Transfer α] in
theorem planning?_call (hs : e.Safe G) {job : JobId} {p : Planning Int α} (h : e.planning? job = some p) :
    ∃ c, e.call? job = some c ∧ c.phase = .planning p := by
  unfold planning? at h
  split at h
  · rename_i q hq
    exact absurd hq (hs.lone job q)
  · rename_i c hc
    cases h
    exact ⟨_, call?_eq.mpr hc, rfl⟩
  · cases h

omit [Transfer α] in
theorem restage_proceeds (hs : e.Safe G) {j : JobId} {c : CompositeCall Int α} (hc : e.call? j = some c)
    (hp : c.phase.plan? = none) {phase : AttemptPhase Int α} (hp' : phase.plan? = none)
    (hd : e.session.phase = .ready → ∀ o p, G j = some o → phase = .planning p → Drafted e.pool.arena o c.held p) :
    e.Change G (e.setCall j { c with phase }) := by
  have hclaims : (e.setCall j { c with phase }).claims { c with phase } = e.claims c := by
    unfold claims
    rw [hp, hp']
    rfl
  have hent : Entered G (e.setCall j { c with phase }) j { c with phase } := by
    refine ⟨hs.known j c hc, fun plan token he => ?_, fun hr k hk => ?_,
      fun hr i d hij hd' k hk => ?_, fun hr o ho => ?_⟩
    · dsimp only at he
      rw [he] at hp'
      cases hp'
    · rw [hclaims] at hk
      exact (hs.orderly hr).live j c hc k hk
    · rw [hclaims] at hk
      rw [call?_setCall, if_neg fun h => hij h.1] at hd'
      exact (hs.orderly hr).apart j i c d (Ne.symm hij) hc hd' k hk
    · refine ⟨fun p he => hd hr o p ho he, fun plan he => ?_⟩
      dsimp only at he
      rw [hp'] at he
      cases he
  exact setCall_change hs (.refl hs.sound) (fun hr i d _ hd => (hs.orderly hr).live i d hd) hent

omit [Stored α] [Transfer α] [Channel α] in
theorem programs_getElem? (bottom : Bool) (layers : List (Layer Int α)) (i : Nat) :
    (Stack.programs bottom layers)[i]? = layers[i]?.map (·.program (bottom && i == 0)) := by
  induction layers generalizing bottom i with
  | nil => rfl
  | cons l layers ih =>
    cases i with
    | zero => simp [Stack.programs]
    | succ i =>
      have := ih false i
      simpa [Stack.programs] using this

omit [Stored α] [Transfer α] [Channel α] in
theorem length_programs (bottom : Bool) (layers : List (Layer Int α)) :
    (Stack.programs bottom layers).length = layers.length := by
  induction layers generalizing bottom with
  | nil => rfl
  | cons l layers ih => exact congrArg (· + 1) (ih false)

omit [Stored α] [Transfer α] in
theorem Drafted.gathered {arena : Arena Int} {o : Order α} {held : List Handle} {p : Planning Int α}
    (h : Drafted arena o held p) (ha : p.arrived.all Option.isSome = true) :
    (p.arrived.filterMap id).map (·.artifact.program) = Stack.programs true o.layers := by
  have harrived := exists_of_all_isSome ha
  generalize p.arrived.filterMap id = ps at harrived
  have hlen : ps.length = o.layers.length := by
    have := h.places
    rw [harrived, List.length_map] at this
    exact this
  refine List.ext_getElem? fun i => ?_
  rw [List.getElem?_map, programs_getElem?, Bool.true_and]
  cases hi : ps[i]? with
  | none =>
    rw [List.getElem?_eq_none_iff] at hi
    rw [List.getElem?_eq_none (hlen ▸ hi)]
    rfl
  | some q =>
    have hplace : p.arrived[i]? = some (some q) := by
      rw [harrived, List.getElem?_map, hi]
      rfl
    obtain ⟨l, hl, hprogram⟩ := h.arrived i q hplace
    rw [hl, Option.map_some, Option.map_some, hprogram]

theorem pipelineArrived_proceeds (hs : e.Safe G) {job : JobId} {index : Nat} {result : Except Failure Pipeline}
    (hn : ∀ q, result = .ok q → e.Holds G (.arrives job index q)) :
    e.Proceeds G (e.pipelineArrived job index result) := by
  unfold pipelineArrived
  split
  · exact .refl hs
  · rename_i p hplanning
    obtain ⟨c, hc, hphase⟩ := planning?_call hs hplanning
    have hplan : c.phase.plan? = none := by rw [hphase]; rfl
    split
    · exact .refl hs
    · split
      · rename_i failure
        have hset := (@restage_proceeds _ _ _ _ _ hs _ _ hc hplan (.planning { p with ended := true }) rfl
          fun hr o q ho he => by
            cases he
            exact { ((hs.orderly hr).staged job c o hc ho).drafted p hphase with }).proceeds hs fun n hn => .inl hn
        rw [setPlanning_eq hc]
        exact hset.trans (schedule_proceeds hset.safe 1 fun n hn => absurd hn List.not_mem_nil)
      · rename_i q
        obtain ⟨o', l, ho', hl, hprogram⟩ := hn q rfl
        -- the place that is taken holds a program for its layer, whether or not it is the last
        have hdrafted (ended : Bool) (hr : e.session.phase = .ready) (o : Order α) (ho : G job = some o) :
            Drafted e.pool.arena o c.held ⟨p.draft, p.arrived.set index (some q), ended⟩ := by
          have hd := ((hs.orderly hr).staged job c o hc ho).drafted p hphase
          rw [ho'] at ho
          cases ho
          refine { hd with places := ?_, arrived := fun i r hi => ?_ }
          · dsimp only
            rw [List.length_set]
            exact hd.places
          · dsimp only at hi
            rw [List.getElem?_set] at hi
            split at hi
            · rename_i hindex
              split at hi
              · cases hi
                exact ⟨l, hindex ▸ hl, hindex ▸ hprogram⟩
              · cases hi
            · exact hd.arrived i r hi
        dsimp only
        split
        · rename_i hall
          have hset := (@restage_proceeds _ _ _ _ _ hs _ _ hc hplan
            (.planning ⟨p.draft, p.arrived.set index (some q), true⟩) rfl
            fun hr o r ho he => by
              cases he
              exact hdrafted true hr o ho).proceeds hs fun n hn => .inl hn
          rw [setPlanning_eq hc]
          refine hset.trans (schedule_proceeds hset.safe 1 fun n hn => ?_)
          rw [List.mem_singleton.mp hn]
          exact fun hr => ⟨o', ho', (hdrafted true hr o' ho').gathered hall⟩
        · rw [setPlanning_eq hc]
          exact (restage_proceeds hs hc hplan rfl
            fun hr o r ho he => by
              cases he
              exact hdrafted p.ended hr o ho).proceeds hs fun n hn => .inl hn

/-! ## The plan is made -/

theorem planFailed_proceeds (hs : e.Safe G) {job : JobId} {p : Planning Int α} (h : e.planning? job = some p)
    (failure : Failure) : e.Proceeds G (e.planMade job (.error failure)) := by
  obtain ⟨c, hc, hphase⟩ := planning?_call hs h
  have hset := (@restage_proceeds _ _ _ _ _ hs _ _ hc (by rw [hphase]; rfl) (.planned (.error failure)) rfl
    fun hr o q ho he => by cases he).proceeds hs fun n hn => .inl hn
  rw [planMade_eq hc]
  exact hset.trans (schedule_proceeds hset.safe 1 fun n hn => absurd hn List.not_mem_nil)

omit [Channel α] [Stored α] [Transfer α] in
theorem exists_parts {layers : List (Layer Int α)} {sources : List Handle} {pipelines : List Pipeline}
    {results blocks : List Handle} (hs : sources.length = layers.length) (hp : pipelines.length = layers.length)
    (hr : results.length = layers.length) (hb : blocks.length = layers.length) :
    ∃ parts : List (Stack.Part α), parts.map (·.layer) = layers ∧ parts.map (·.source) = sources ∧
      parts.map (·.pipeline) = pipelines ∧ parts.map (·.result) = results ∧ parts.map (·.block) = blocks := by
  induction layers generalizing sources pipelines results blocks with
  | nil =>
    rw [List.length_eq_zero_iff.mp hs, List.length_eq_zero_iff.mp hp, List.length_eq_zero_iff.mp hr,
      List.length_eq_zero_iff.mp hb]
    exact ⟨[], rfl, rfl, rfl, rfl, rfl⟩
  | cons l layers ih =>
    obtain ⟨s, sources, rfl⟩ := List.exists_cons_of_length_eq_add_one hs
    obtain ⟨q, pipelines, rfl⟩ := List.exists_cons_of_length_eq_add_one hp
    obtain ⟨r, results, rfl⟩ := List.exists_cons_of_length_eq_add_one hr
    obtain ⟨b, blocks, rfl⟩ := List.exists_cons_of_length_eq_add_one hb
    obtain ⟨parts, h₁, h₂, h₃, h₄, h₅⟩ := ih (Nat.succ.inj hs) (Nat.succ.inj hp) (Nat.succ.inj hr) (Nat.succ.inj hb)
    exact ⟨⟨l, s, q, r, b⟩ :: parts, congrArg _ h₁, congrArg _ h₂, congrArg _ h₃, congrArg _ h₄, congrArg _ h₅⟩

omit [Transfer α] in
/-- The plan made from a draft carries the order out. -/
theorem Drafted.carries {arena : Arena Int} {o : Order α} {held : List Handle} {p : Planning Int α}
    (h : Drafted arena o held p) {pipelines : List Pipeline} {pool pool' : Pool Int α} {plan : Plan Int α}
    (hs : pool.Sound) (ha : pool.arena = arena) (hl : ∀ k ∈ held, arena.contains k = true)
    (hp : pipelines.map (·.artifact.program) = Stack.programs true o.layers)
    (he : p.draft.emit pipelines pool = (.ok plan, pool')) :
    ∃ destination parts last, Stack.Carries o.width o.height o.layers held destination parts last plan ∧
      ((∀ p ∈ parts, p.layer.Stocked pool.arena p.source) →
        Stack.Housed pool'.arena o.width o.height parts destination) := by
  subst ha
  obtain ⟨sources, destination, hheld, hlen, hdraft, r, hr, hformat, hsize⟩ := h.slots
  obtain ⟨r', hr', results, blocks, last, hdrawn, hprovided⟩ := Draft.emit_drawn hs he
  rw [hdraft] at hr' hdrawn
  rw [hr] at hr'
  cases hr'
  rw [hformat] at hdrawn hprovided
  have hsteps := @Draft.length_stackSteps _ _ o.width o.height true _ _ hlen
  have hpipes : pipelines.length = o.layers.length := by
    rw [← length_programs true o.layers, ← hp, List.length_map]
  obtain ⟨parts, h₁, h₂, h₃, h₄, h₅⟩ := exists_parts hlen hpipes
    (hdrawn.resultCount.trans hsteps) (hdrawn.blockCount.trans hsteps)
  obtain ⟨grants, hgains, howned⟩ := hprovided.gains
  refine ⟨destination, parts, last, ⟨h₁, by rw [hheld, h₂], ?_, by rw [h₂, h₃, h₄, h₅]; exact hdrawn, h.fit, ?_⟩,
    fun hstocked => ⟨fun p hp' => ?_, fun p hp' => ?_, fun p hp' => ?_, r, hgains.resolve hr, hformat, hsize⟩⟩
  · rw [← hp, ← h₃, List.map_map]
    rfl
  · rw [howned]
    refine List.nodup_append.mpr ⟨h.nodup, hgains.nodup, fun k hk k' hk' he => ?_⟩
    obtain ⟨g, hg, rfl⟩ := List.mem_map.mp hk'
    exact hgains.fresh g hg (he ▸ Arena.issued_of_contains (hl k hk))
  · obtain ⟨s, hs', hrest⟩ := hstocked p hp'
    exact ⟨s, hgains.resolve hs', hrest⟩
  · obtain ⟨s, hs', hwords, -⟩ := hprovided.results p.result (h₄ ▸ List.mem_map_of_mem hp')
    exact ⟨s, hs', hwords⟩
  · obtain ⟨s, hs', hwords⟩ := hprovided.blocks p.block (h₅ ▸ List.mem_map_of_mem hp')
    have hparams : Measure.wholeWords? (Measure.ofNat paramsSize : Int) = some paramsSize := by decide
    rw [hparams] at hwords
    exact ⟨s, hs', (Option.some.inj hwords).symm⟩

/-! A call goes from planning to a plan that was made for it. -/

section
variable {job : JobId} {c : CompositeCall Int α} {p : Planning Int α} {pipelines : List Pipeline}
  {plan : Plan Int α} {pool : Pool Int α}

theorem live_planning (hs : e.Safe G) (hready : e.session.phase = .ready) {i : JobId} {d : CompositeCall Int α}
    (hd : e.call? i = some d) {k : Handle} (hk : k ∈ (e.addPlan plan).2.claims d) :
    e.pool.arena.contains k = true :=
  ((addPlan_proceeds hs plan).safe.orderly hready).live i d hd k hk

omit [Channel α] [Stored α] [Transfer α] in
theorem addPlan_record (e : Engine Int α) (plan : Plan Int α) :
    (e.addPlan plan).2.plans[e.plans.size]? = some ⟨plan, #[]⟩ := by
  unfold addPlan
  dsimp only
  rw [Array.getElem?_push, if_pos rfl]

omit [Channel α] [Stored α] [Transfer α] in
theorem mem_claims_made {k : Handle} (hk : k ∈ ({ (e.addPlan plan).2 with pool }.setCall job
      { c with phase := .planned (.ok e.plans.size) }).claims { c with phase := .planned (.ok e.plans.size) }) :
    k ∈ c.held ∨ k ∈ plan.owned := by
  have hk : k ∈ c.held ++ [e.plans.size].flatMap (e.addPlan plan).2.ownedBy := hk
  rw [List.flatMap_singleton, List.mem_append] at hk
  unfold ownedBy at hk
  rwa [addPlan_record] at hk

theorem made_entered (hs : e.Safe G) (hc : e.call? job = some c) (hphase : c.phase = .planning p)
    (hemit : p.draft.emit pipelines e.pool = (.ok plan, pool)) (hgathered : e.Holds G (.gathered job pipelines)) :
    Entered G ({ (e.addPlan plan).2 with pool }.setCall job { c with phase := .planned (.ok e.plans.size) }) job
      { c with phase := .planned (.ok e.plans.size) } := by
  have hsafe := (addPlan_proceeds hs plan).safe
  obtain ⟨r, hr, results, blocks, last, hdrawn, hprovided⟩ := Draft.emit_drawn hs.sound hemit
  obtain ⟨grants, hgains, howned⟩ := hprovided.gains
  have hheld {k : Handle} (hk : k ∈ c.held) : k ∈ (e.addPlan plan).2.claims c := List.mem_append_left _ hk
  refine {
    known := hs.known job c hc
    waits := fun _ _ he => (by cases he)
    live := fun hready k hk => ?_
    apart := fun hready i d hij hd k hk hk' => ?_
    staged := fun hready o ho => ⟨fun _ he => (by cases he), fun id he => ?_⟩ }
  · rcases mem_claims_made hk with hk | hk
    · exact (hgains.contains k).mpr (.inl (live_planning hs hready hc (hheld hk)))
    · exact (hgains.contains k).mpr (.inr (howned ▸ hk))
  · rw [call?_setCall, if_neg fun h => hij h.1] at hd
    rcases mem_claims_made hk with hk | hk
    · exact (hsafe.orderly hready).apart job i c d (Ne.symm hij) hc hd k (hheld hk) hk'
    · obtain ⟨g, hg, rfl⟩ := List.mem_map.mp (howned ▸ hk)
      exact hgains.fresh g hg (Arena.issued_of_contains (live_planning hs hready hd hk'))
  · cases he
    obtain ⟨o', ho', hprograms⟩ := hgathered hready
    obtain rfl : o = o' := Option.some.inj (ho.symm.trans ho')
    have hdrafted := ((hs.orderly hready).staged job c o hc ho).drafted p hphase
    have hlive (k : Handle) (hk : k ∈ c.held) : e.pool.arena.contains k = true :=
      live_planning hs hready hc (hheld hk)
    obtain ⟨destination, parts, last, hcarries, -⟩ := hdrafted.carries hs.sound rfl hlive hprograms hemit
    exact ⟨_, destination, parts, last, addPlan_record e plan, hcarries⟩

end

theorem planReady_proceeds (hs : e.Safe G) {job : JobId} {result : Except Failure (List Pipeline)}
    (hn : ∀ ps, result = .ok ps → e.Holds G (.gathered job ps)) : e.Proceeds G (e.planReady job result) := by
  unfold planReady
  split
  · exact .refl hs
  · rename_i p failure h
    exact planFailed_proceeds hs h failure
  · rename_i p pipelines h
    obtain ⟨c, hc, hphase⟩ := planning?_call hs h
    split
    · rename_i failure pool hemit
      obtain ⟨hleads, hkeep⟩ := Draft.emit_fails hs.sound hemit
      have hset := setPool_proceeds hs hleads hkeep
      exact hset.trans (planFailed_proceeds hset.safe h failure)
    · rename_i plan pool hemit
      have hadd := addPlan_proceeds hs plan
      obtain ⟨r, hr, results, blocks, last, -, hprovided⟩ := Draft.emit_drawn hs.sound hemit
      obtain ⟨grants, hgains, -⟩ := hprovided.gains
      have hchange := setCall_change hadd.safe hgains.toLeads
        (fun hready i d _ hd k hk => (hgains.contains k).mpr (.inl (live_planning hs hready hd hk)))
        (made_entered hs hc hphase hemit (hn pipelines rfl))
      have hset := hchange.proceeds hadd.safe fun n hn => .inl hn
      have hmade : { (e.addPlan plan).2 with pool }.planMade job (.ok e.plans.size) =
          ({ (e.addPlan plan).2 with pool }.setCall job { c with phase := .planned (.ok e.plans.size) }).schedule 1
            (.planned job) := planMade_eq (e := { (e.addPlan plan).2 with pool }) hc _
      have hend := schedule_proceeds hset.safe 1 (t := .planned job) fun n hn => absurd hn List.not_mem_nil
      rw [← hmade] at hend
      exact (hadd.trans hset).trans hend

end Engine

end Strata
