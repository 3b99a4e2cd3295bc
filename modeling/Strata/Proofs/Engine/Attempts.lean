import Strata.Proofs.Engine.Drafts

/-!
# Attempts keep every promise

An attempt starts with slots that nobody had before (`startAttempt_proceeds`), and however it ends, it
gives up no slot but its own (`leave_proceeds`).
-/

namespace Strata

variable {α : Type} {G : Ledger α} {e : Engine Int α}

namespace Engine

/-! ## Leaving -/

def Free (e : Engine Int α) (j : JobId) (handles : List Handle) : Prop :=
  e.session.phase = .ready → ∀ i d, i ≠ j → e.call? i = some d → ∀ k ∈ e.claims d, k ∉ handles

variable [Channel α] [Stored α] [Transfer α]

omit [Transfer α] in
theorem entered_ended {c : CompositeCall Int α} {j : JobId}
    (hk : ∃ o, G j = some o ∧ c.layers = o.layers ∧ c.outputFormat = o.outputFormat) :
    Entered G e j { c with held := [], phase := .ended } :=
  ⟨hk, fun _ _ h => by
    (cases h), fun _ _ h => absurd h List.not_mem_nil, fun _ _ _ _ _ _ h => absurd h List.not_mem_nil,
    fun _ _ _ => ⟨fun _ h => by (cases h), fun _ h => by (cases h)⟩⟩

/-- A call ends its attempt while the slots of all others stay live. -/
theorem end_proceeds (hs : e.Safe G) {pool : Pool Int α} (hl : e.pool.Leads pool) {j : JobId}
    {c : CompositeCall Int α} {o : Order α} (ho : G j = some o) (hlayers : c.layers = o.layers)
    (hformat : c.outputFormat = o.outputFormat)
    (hc : e.session.phase = .ready → ∀ i d, i ≠ j → e.call? i = some d → ∀ k ∈ e.claims d,
      pool.arena.contains k = true)
    {result : Except Failure (Raster Int α)} (hr : ∀ r, result = .ok r → o.Fits ∧ r = o.raster) :
    e.Proceeds G (({ e with pool }.setCall j { c with held := [], phase := .ended }).schedule 1
      (.attemptEnded j result)) := by
  have hset := (setCall_change hs hl hc (entered_ended ⟨o, ho, hlayers, hformat⟩)).proceeds hs fun n hn => .inl hn
  refine hset.trans (schedule_proceeds hset.safe 1 fun n hn => ?_)
  cases result with
  | error failure => exact absurd hn List.not_mem_nil
  | ok r =>
    rw [List.mem_singleton.mp hn]
    exact ⟨o, ho, hr r rfl⟩

omit [Channel α] [Stored α] [Transfer α] in
theorem endWith_ok {pool : Attempt Failure (Pool Int α) Unit} {result : Except Failure (Raster Int α)}
    {r : Raster Int α} (h : (pool.endWith result).1 = .ok r) : result = .ok r := (Attempt.endWith_eq_ok h).1

theorem leave_proceeds (hs : e.Safe G) {j : JobId} {c : CompositeCall Int α} (hc : e.call? j = some c)
    {owned : List Handle} (hf : e.Free j owned) {result : Except Failure (Raster Int α)}
    (hr : ∀ r o, G j = some o → result = .ok r → o.Fits ∧ r = o.raster) :
    e.Proceeds G (e.leave j owned result) := by
  obtain ⟨o, ho, hlayers, hformat⟩ := hs.known j c hc
  obtain ⟨hl, hkeep, -⟩ := Pool.releaseLive_spec hs.sound (c.held ++ owned)
  rw [leave_eq hc]
  apply end_proceeds hs hl ho hlayers hformat
  · intro hready i d hij hd k hk
    apply hkeep k _ ((hs.orderly hready).live i d hd k hk)
    intro hmem
    rcases List.mem_append.mp hmem with hmem | hmem
    · exact (hs.orderly hready).apart i j d c hij hd hc k hk (Change.mem_claims hmem)
    · exact hf hready i d hij hd k hk hmem
  · intro r h
    exact hr r o ho (endWith_ok h)

theorem abandon_proceeds (hs : e.Safe G) {pool : Pool Int α} {grants : List (Pool.Grant Int)}
    (hg : e.pool.Gains pool grants) {j : JobId} {c : CompositeCall Int α} {o : Order α} (ho : G j = some o)
    (hlayers : c.layers = o.layers) (hformat : c.outputFormat = o.outputFormat)
    (hheld : c.held = grants.map (·.handle)) (failure : Failure) :
    e.Proceeds G (({ e with pool }.setCall j c).leave j [] (.error failure)) := by
  obtain ⟨hl, hkeep, -⟩ := Pool.releaseLive_spec hg.sound c.held
  rw [leave_setCall (e := { e with pool }) (hs.asked j o ho).1]
  apply end_proceeds hs (hg.toLeads.trans hl) ho hlayers hformat
  · intro hready i d hij hd k hk
    have hlive := (hs.orderly hready).live i d hd k hk
    apply hkeep k _ ((hg.contains k).mpr (.inl hlive))
    rw [hheld]
    exact hg.not_granted hlive
  · intro r h
    cases endWith_ok h

/-! ## Starting -/

omit [Transfer α] in
theorem entered_new {pool : Pool Int α} (hs : e.Safe G) {grants : List (Pool.Grant Int)}
    (hg : e.pool.Gains pool grants) {e' : Engine Int α} (harena : e'.pool.arena = pool.arena)
    (hjobs : e'.jobs = e.jobs) (hplans : e'.plans = e.plans) (hsession : e'.session = e.session) {j : JobId}
    {c : CompositeCall Int α} (hk : ∃ o, G j = some o ∧ c.layers = o.layers ∧ c.outputFormat = o.outputFormat)
    (hheld : c.held = grants.map (·.handle)) (hp : c.phase.plan? = none)
    (hd : ∀ o p, G j = some o → c.phase = .planning p → Drafted pool.arena o c.held p) :
    Entered G (e'.setCall j c) j c := by
  have hclaims : (e'.setCall j c).claims c = grants.map (·.handle) := by
    unfold claims
    rw [hp, hheld]
    exact List.append_nil _
  refine ⟨hk, ?_, ?_, ?_, ?_⟩
  · intro plan token h
    rw [h] at hp
    cases hp
  · intro _ k hk
    rw [hclaims] at hk
    show e'.pool.arena.contains k = true
    rw [harena]
    exact (hg.contains k).mpr (.inr hk)
  · intro hready i d hij hcall k hk hk'
    have hready : e.session.phase = .ready := by
      rw [← hsession]
      exact hready
    rw [call?_setCall, if_neg fun h => hij h.1] at hcall
    have hcall : e.call? i = some d := by
      unfold call? at hcall ⊢
      rw [← hjobs]
      exact hcall
    have hclaims' : (e'.setCall j c).claims d = e.claims d := by
      show d.held ++ d.phase.plan?.toList.flatMap (fun plan => (e'.plans[plan]?.map (·.plan.owned)).getD []) = _
      rw [hplans]
      rfl
    rw [hclaims] at hk
    rw [hclaims'] at hk'
    exact hg.not_granted ((hs.orderly hready).live i d hcall k hk') hk
  · intro _ o ho
    refine ⟨fun p h => ?_, fun plan h => ?_⟩
    · show Drafted e'.pool.arena o c.held p
      rw [harena]
      exact hd o p ho h
    · rw [hp] at h
      cases h

theorem enter_proceeds (hs : e.Safe G) {j : JobId} {c : CompositeCall Int α} (h : Entered G (e.setCall j c) j c) :
    e.Proceeds G (e.setCall j c) :=
  (setCall_change hs (.refl hs.sound) (fun hready i d _ hd => (hs.orderly hready).live i d hd) h).proceeds hs
    fun _ hn => .inl hn

omit [Stored α] [Transfer α] in
/-- The plan of a stack that was checked, before any of its programs arrived. -/
theorem drafted_new {pool : Pool Int α} {grants : List (Pool.Grant Int)}
    (hg : e.pool.Gains pool grants) {o : Order α} {sources : List Handle} {destination : Handle}
    (hheld : sources ++ [destination] = grants.map (·.handle)) (hlen : sources.length = o.layers.length)
    (hreceives : Draft.Receives pool.arena o.width o.height destination)
    (hfit : o.Fits) : Drafted pool.arena o (sources ++ [destination])
      ⟨⟨Draft.stackSteps o.width o.height true o.layers sources,
          List.zipWith Layer.upload o.layers sources, destination⟩,
        (Draft.stackSteps o.width o.height true o.layers sources).map fun _ => none, false⟩ where
  slots := ⟨sources, destination, rfl, hlen, rfl, hreceives⟩
  nodup := hheld ▸ hg.nodup
  fit := hfit
  places := by rw [List.length_map, Draft.length_stackSteps hlen]
  arrived i q hi := by
    rw [List.getElem?_map] at hi
    cases hstep : (Draft.stackSteps o.width o.height true o.layers sources)[i]? with
    | none => rw [hstep] at hi; cases hi
    | some step => rw [hstep] at hi; cases hi

/-- An attempt that has its slots makes a plan over them. -/
theorem planAttempt_proceeds (hs : e.Safe G) {pool : Pool Int α} {grants : List (Pool.Grant Int)}
    (hg : e.pool.Gains pool grants) {j : JobId} {c : CompositeCall Int α} {o : Order α} (ho : G j = some o)
    (hlayers : c.layers = o.layers) (hformat : c.outputFormat = o.outputFormat) {sources : List Handle}
    {destination : Handle} (hheld : sources ++ [destination] = grants.map (·.handle))
    (hstocked : List.Forall₂ (Layer.Stocked pool.arena) o.layers sources)
    (hreceives : Draft.Receives pool.arena o.width o.height destination) :
    e.Proceeds G ({ e with pool }.planAttempt j c destination sources) := by
  have hpool := setPool_proceeds hs hg.toLeads fun k hk => (hg.contains k).mpr (.inl hk)
  obtain ⟨layers, outputFormat, signal, verifies, retries, held, phase⟩ := c
  dsimp only at hlayers hformat
  subst hlayers hformat
  unfold planAttempt
  dsimp only
  split
  · rename_i failure _
    exact abandon_proceeds hs hg ho rfl rfl hheld failure
  · rename_i stack hstack
    rw [stackOf_ok hstack]
    -- a stack of slots that were just allocated for it passes no check but as its own draft
    have hcheck (draft : Draft Int α) (h : Draft.check pool.arena e.capabilities e.cache.library
        (List.zipWith (Layer.descriptor destination) o.layers sources) (uploadsOf o.layers sources) = .ok draft) :
        draft = ⟨Draft.stackSteps o.width o.height true o.layers sources,
          List.zipWith Layer.upload o.layers sources, destination⟩ ∧
          Layer.AllFit o.width o.height true o.layers := by
      obtain ⟨hdraft, hfit, -⟩ := Draft.check_stack hreceives hstocked h
      rw [uploadsOf_eq] at hdraft
      exact ⟨hdraft, hfit⟩
    have hbegin := beginPlanning_proceeds hpool.safe ho
      fun draft hdraft i step hstep => by
        rw [(hcheck draft hdraft).1] at hstep
        obtain ⟨l, hl, hkey⟩ := Draft.stackSteps_key hstep
        exact ⟨l, hl, by simpa using hkey⟩
    have haside := Aside.beginPlanning { e with pool } j
      (List.zipWith (Layer.descriptor destination) o.layers sources) (uploadsOf o.layers sources)
    have hok := fun p h => @beginPlanning_ok _ _ { e with pool } j _
      (List.zipWith (Layer.descriptor destination) o.layers sources) (uploadsOf o.layers sources) p h
    split
    · rename_i failure e' h
      rw [h] at hbegin
      obtain rfl := beginPlanning_error h
      have hent := @entered_new _ _ _ _ _ _ hs _ hg { e with pool } rfl rfl rfl rfl j
        (⟨o.layers, o.outputFormat, signal, verifies, retries, sources ++ [destination], .planned (.error failure)⟩)
        ⟨o, ho, rfl, rfl⟩ hheld rfl fun o p _ hp => by cases hp
      have hset := enter_proceeds hpool.safe hent
      exact (hpool.trans hset).trans (schedule_proceeds hset.safe 1 fun n hn => absurd hn List.not_mem_nil)
    · rename_i p e' h
      rw [h] at hbegin haside hok
      obtain ⟨draft, hdraft, rfl⟩ := hok p rfl
      obtain ⟨rfl, hfit⟩ := hcheck draft hdraft
      obtain ⟨cache, device, turns, gated, he', -, -, -, -⟩ := haside
      dsimp only at he'
      have hdrafted := drafted_new hg hheld hstocked.length_eq.symm hreceives hfit
      refine (hpool.trans hbegin).trans (enter_proceeds hbegin.safe (entered_new hs hg (by rw [he']) (by rw [he'])
        (by rw [he']) (by rw [he']) ⟨o, ho, rfl, rfl⟩ hheld rfl fun o' p ho' hp => ?_))
      obtain rfl : o = o' := Option.some.inj (ho.symm.trans ho')
      cases hp
      exact hdrafted

theorem startAttempt_proceeds (hs : e.Safe G) {j : JobId} {c : CompositeCall Int α} {o : Order α}
    (ho : G j = some o) (hlayers : c.layers = o.layers) (hformat : c.outputFormat = o.outputFormat) :
    e.Proceeds G (e.startAttempt j c) := by
  have hend (failure : Failure) := @end_proceeds _ _ _ _ _ _ hs _ (.refl hs.sound) _ c _ ho hlayers hformat
    (fun hready i d _ hd => (hs.orderly hready).live i d hd) (.error failure) fun r h => by cases h
  have hbase : c.layers.head? = some o.base := by
    rw [hlayers]
    rfl
  unfold startAttempt
  rw [hbase]
  split
  · exact hend _
  · rename_i h
    cases h
  · rename_i base _ hsome
    cases hsome
    obtain ⟨grants, hgains, hhandles, hstocked⟩ := allocateSources_gains hs.sound c.layers
    generalize allocateSources e.pool c.layers = r at hgains hhandles hstocked
    obtain ⟨r, sources, pool⟩ := r
    dsimp only at hgains hhandles hstocked
    cases r with
    | error failure =>
      exact abandon_proceeds hs hgains ho (c := { c with held := sources }) hlayers hformat hhandles failure
    | ok u =>
      cases u
      dsimp only
      obtain ⟨herr, hok⟩ := Pool.allocate_spec hgains.sound
        (.image .readback .float32 o.base.raster.width o.base.raster.height)
        (workingBytes o.base.raster.width o.base.raster.height)
      generalize pool.allocate (.image .readback .float32 o.base.raster.width o.base.raster.height)
        (workingBytes o.base.raster.width o.base.raster.height) = r at herr hok
      obtain ⟨r, pool'⟩ := r
      cases r with
      | error failure =>
        -- what was allocated before the failure is given up again
        have hall := hgains.trans (.of_quiet (herr failure rfl))
        rw [List.append_nil] at hall
        exact abandon_proceeds hs hall ho (c := { c with held := sources }) hlayers hformat hhandles failure
      | ok destination =>
        obtain ⟨bytes, hbytes, halloc⟩ := hok destination rfl
        have hlast := Pool.Gains.of_allocated halloc
        have hall := hgains.trans hlast
        obtain ⟨b, hb⟩ := hlast.resolves _ (List.mem_singleton_self _)
        refine planAttempt_proceeds hs hall ho hlayers hformat ?_ ?_ ⟨_, hb, rfl, hbytes⟩
        · rw [hhandles, List.map_append]
          rfl
        · rw [hlayers] at hstocked
          refine (hstocked rfl).imp fun l source h => ?_
          obtain ⟨r, hr, hf, hsize⟩ := h
          exact ⟨r, hlast.resolve hr, hf, hsize⟩

/-! ## Ending -/

/-- The output of a submission that succeeded is what was asked for. -/
theorem resumed_proceeds (hs : e.Safe G) {j : JobId} {token : SubmissionId} {outcome : Outcome}
    (hn : ∀ n ∈ Outcome.notes token outcome, e.Holds G n) : e.Proceeds G (e.resumed j token outcome) := by
  unfold resumed
  split
  · rename_i c hc
    split
    · rename_i plan awaited base hphase hbase
      split
      · rename_i heq
        subst heq
        apply leave_proceeds hs hc
        · intro hready i d hij hd k hk hmem
          apply (hs.orderly hready).apart i j d c hij hd hc k hk
          unfold claims
          rw [hphase]
          exact List.mem_append_right _ (List.mem_flatMap.mpr ⟨plan, List.mem_singleton_self _, hmem⟩)
        · intro r o ho h
          cases outcome with
          | error failure => cases h
          | ok u =>
            have hpromise : e.Promises G awaited [] := hn _ (List.mem_singleton_self _)
            obtain ⟨o', ho', hlayers, hformat⟩ := hs.known j c hc
            rw [ho] at ho'
            cases ho'
            rcases hpromise.covers j c o plan hc ho hphase with ⟨rec, hrec, houtput⟩ | ⟨d, hd, -⟩
            · rw [hrec, hformat] at h
              rw [hlayers] at hbase
              cases hbase
              obtain ⟨-, -, hfit, -⟩ := hs.drains j c o plan awaited hc ho hphase
              rw [o.raster_eq, ← houtput]
              exact ⟨hfit, (Except.ok.inj h).symm⟩
            · exact absurd hd List.not_mem_nil
      · exact .refl hs
    · exact .refl hs
  · exact .refl hs

theorem drained_proceeds (hs : e.Safe G) {j : JobId} {token : SubmissionId} {outcome : Outcome}
    (hn : ∀ n ∈ Outcome.notes token outcome, e.Holds G n) : e.Proceeds G (e.drained j token outcome) := by
  have hlisten : e.Proceeds G { e with listeners := e.listeners.filter fun l => l.2 != (j, token) } :=
    .same hs rfl rfl rfl rfl rfl rfl rfl rfl fun n hn => .inl hn
  have hend {e' : Engine Int α} (h : e.Proceeds G e') :
      e.Proceeds G
        (if e.listeners.any fun l => l.2 == (j, token) then e'.schedule 1 (.resumed j token outcome) else e') := by
    split
    · exact h.trans (schedule_proceeds h.safe 1 fun n hm => h.keeps n (hn n hm))
    · exact h
  unfold drained
  dsimp only
  apply hend
  cases outcome with
  | ok u => exact hlisten
  | error failure =>
    have hreport (aborted : Bool) : e.Proceeds G (if aborted then
        ({ e with listeners := e.listeners.filter fun l => l.2 != (j, token) } : Engine Int α).report
          (.failedAfterAbort failure)
        else { e with listeners := e.listeners.filter fun l => l.2 != (j, token) }) := by
      cases aborted with
      | false => exact hlisten
      | true => exact hlisten.trans (report_proceeds hlisten.safe _)
    exact hreport _

omit [Stored α] [Transfer α] in
theorem answerOf_notes [Stored α] [Transfer α] {c : CompositeCall Int α} {j : JobId}
    {raster : Raster Int α} {n : Note α} (h : n ∈ answerNotes (j, e.answerOf c raster)) : n = .yields j raster := by
  unfold answerOf at h
  split at h
  · cases hd : Direct.composite c.layers (some raster.format) with
    | error failure =>
      rw [hd] at h
      exact absurd h List.not_mem_nil
    | ok host =>
      rw [hd] at h
      cases hcmp : raster.compare host e.config.tolerance with
      | error failure =>
        simp only [bind, Except.bind, hcmp] at h
        exact absurd h List.not_mem_nil
      | ok comparison =>
        simp only [bind, Except.bind, hcmp] at h
        exact List.mem_singleton.mp h
  · exact List.mem_singleton.mp h

theorem attemptEnded_proceeds (hs : e.Safe G) {j : JobId} {result : Except Failure (Raster Int α)}
    (hn : ∀ r, result = .ok r → e.Holds G (.yields j r)) : e.Proceeds G (e.attemptEnded j result) := by
  unfold attemptEnded
  split
  · exact .refl hs
  · rename_i c raster hc
    have hend {e' : Engine Int α} (h : e.Proceeds G e') : e.Proceeds G (e'.settle j (e'.answerOf c raster)) := by
      refine h.trans (settle_proceeds h.safe j fun n hm => ?_)
      rw [answerOf_notes hm]
      exact h.keeps _ (hn raster rfl)
    dsimp only
    split
    · exact hend (report_proceeds hs _)
    · exact hend (.refl hs)
  · rename_i c failure hc
    have hsettle {e' : Engine Int α} (hs' : e'.Safe G) (failure : Failure) :
        e'.Proceeds G (e'.settle j (.error failure)) :=
      settle_proceeds hs' j fun n hm => absurd hm List.not_mem_nil
    dsimp only
    split
    · have hreport := report_proceeds hs (.retrying (c.retries + 1) (e.config.retries.getD 0))
      have htrim := Pool.trim_quiet hreport.safe.sound
      obtain ⟨o, ho, hlayers, hformat⟩ := hs.known j c hc
      generalize (e.report (.retrying (c.retries + 1) (e.config.retries.getD 0))).pool.trim = r at htrim
      obtain ⟨r, pool⟩ := r
      have hpool := setPool_proceeds hreport.safe htrim.toLeads fun k hk => htrim.contains ▸ hk
      cases r with
      | ok u => exact (hreport.trans hpool).trans (startAttempt_proceeds hpool.safe ho hlayers hformat)
      | error failure => exact (hreport.trans hpool).trans (hsettle hpool.safe failure)
    · exact hsettle hs failure

end Engine

end Strata
