import Strata.Proofs.Engine.Moves
import Strata.Proofs.Engine.Submissions

/-!
# Runs

Every run of a session keeps every promise (`Well.run`), as long as nobody gives up slots that are not his
or submits plans of his own.
-/

namespace Strata

variable {α : Type}

/-- Whether an operation leaves the slots and plans of composite calls alone. All do but those that give
slots up and those that make or submit plans of their own. -/
def Operation.spares {ν : Type} : Operation ν α → Bool
  | .release _ | .invalidate | .closeArena _ | .makePlan .. | .submit _ => false
  | _ => true

namespace Move

variable [Channel α]

/-- What others hold is left alone, and no array is longer than a host can make them. -/
def Fair : Move Int α → Prop
  | .call op => op.spares = true ∧ ∀ layers options verifies, op = .composite layers options verifies →
      ∀ ls, parseLayers (ν := Int) layers = .ok ls → ∀ l ∈ ls, l.raster.texels.size ≤ longestArray
  | .turn _ | .fire => True

theorem fair_composite {layers : Value α} {ls : List (Layer Int α)} (h : parseLayers layers = .ok ls)
    (hb : ∀ l ∈ ls, l.raster.texels.size ≤ longestArray) (options : Value α) (verifies : Bool) :
    Fair (.call (.composite layers options verifies)) := by
  refine ⟨rfl, fun layers' _ _ heq ls' hls => ?_⟩
  cases heq
  rw [h] at hls
  cases hls
  exact hb

end Move

def Ledger.enter (G : Ledger α) (job : JobId) (o : Option (Order α)) : Ledger α :=
  fun j => if j = job then o else G j

namespace Engine

variable [Channel α] [Stored α] [Transfer α]

structure Well (G : Ledger α) (e : Engine Int α) : Prop where
  safe : e.Safe G
  holds : ∀ n ∈ e.notes, e.Holds G n

variable {G G' : Ledger α} {e e' : Engine Int α}

theorem Well.proceeds (h : e.Well G) (hp : e.Proceeds G e') : e'.Well G := by
  refine ⟨hp.safe, fun n hn => ?_⟩
  rcases hp.notes n hn with hn | hn
  · exact hp.keeps n (h.holds n hn)
  · exact hn

/-! ## Turns -/

theorem perform_proceeds (hw : e.Well G) {t : Turn Int α} (ht : ∀ n ∈ t.notes, e.Holds G n) :
    e.Proceeds G (e.perform t) := by
  have hs := hw.safe
  cases t with
  | buildUngated serial key => exact buildUngated_proceeds hs (ht _ (List.mem_singleton_self _))
  | buildEnded serial result =>
    refine buildEnded_proceeds hs fun a h => ?_
    subst h
    exact ht _ (List.mem_singleton_self _)
  | pipelineArrived job index result =>
    refine pipelineArrived_proceeds hs fun q h => ?_
    subst h
    exact ht _ (List.mem_singleton_self _)
  | planReady job result =>
    refine planReady_proceeds hs fun ps h => ?_
    subst h
    exact ht _ (List.mem_singleton_self _)
  | planned job => exact planned_proceeds hs hw.holds job
  | scopesClosed s => exact scopesClosed_proceeds hs ht
  | workDone s outcome => exact workDone_proceeds hs ht
  | mapped token ds outcome => exact mapped_proceeds hs ht
  | rejected token failure => exact schedule_proceeds hs 1 fun _ h => absurd h List.not_mem_nil
  | finished token outcome => exact finished_proceeds hs ht
  | reported token outcome => exact reported_proceeds hs ht
  | lossSeen reason message => exact lossSeen_proceeds hs reason message
  | collected job token outcome => exact collected_proceeds hs ht
  | drained job token outcome => exact drained_proceeds hs ht
  | resumed job token outcome => exact resumed_proceeds hs ht
  | attemptEnded job result =>
    refine attemptEnded_proceeds hs fun r h => ?_
    subst h
    exact ht _ (List.mem_singleton_self _)

theorem dropTurns_proceeds (hs : e.Safe G) {turns : List (Nat × Turn Int α)} (h : turns ⊆ e.turns) :
    e.Proceeds G { e with turns } := by
  refine .same hs rfl rfl rfl rfl rfl rfl rfl rfl fun n hn => .inl ?_
  rcases mem_notes.mp hn with ⟨t, ht, hn⟩ | hn
  · exact mem_notes.mpr (.inl ⟨t, h ht, hn⟩)
  · exact mem_notes.mpr (.inr hn)

theorem take_proceeds (hw : e.Well G) {x : Nat × Turn Int α} (hx : x ∈ e.turns) {turns : List (Nat × Turn Int α)}
    (h : turns ⊆ e.turns) : e.Proceeds G (({ e with turns } : Engine Int α).perform x.2) := by
  have hdrop := dropTurns_proceeds hw.safe h
  refine hdrop.trans (perform_proceeds (hw.proceeds hdrop) fun n hn => ?_)
  exact hdrop.keeps n (hw.holds n (mem_notes.mpr (.inl ⟨x, hx, hn⟩)))

theorem fire_proceeds (hw : e.Well G) : e.Proceeds G e.fire := by
  unfold fire
  split
  · exact .refl hw.safe
  · rename_i delay turn rest h
    have hmem : (delay, turn) ∈ e.turns := by
      rw [h]
      exact List.mem_cons_self ..
    have hsub : rest ⊆ e.turns := by
      rw [h]
      exact List.subset_cons_self _ _
    dsimp only
    split
    · exact take_proceeds hw hmem hsub
    · have hdrop := dropTurns_proceeds hw.safe hsub
      exact hdrop.trans (schedule_proceeds hdrop.safe _ fun n hn =>
        hdrop.keeps n (hw.holds n (mem_notes.mpr (.inl ⟨_, hmem, hn⟩))))

/-! ## Operations -/

theorem onPool_proceeds (hs : e.Safe G) {β : Type} {r : Attempt Failure (Pool Int α) β} (f : β → Answer Int α)
    (hl : e.pool.Leads r.2) (hc : ∀ k, e.pool.arena.contains k = true → r.2.arena.contains k = true) :
    e.Proceeds G (e.onPool r f).2 := setPool_proceeds hs hl hc

theorem onQuietPool_proceeds (hs : e.Safe G) {β : Type} {r : Attempt Failure (Pool Int α) β} (f : β → Answer Int α)
    (hq : e.pool.Quiet r.2) : e.Proceeds G (e.onPool r f).2 :=
  onPool_proceeds hs f hq.toLeads fun _ hk => hq.contains ▸ hk

theorem onDeviceCall_proceeds (hs : e.Safe G) (call : DeviceCall) {f : Device Int α → Device Int α}
    (hf : ∀ d, (f d).buffers = d.buffers) : e.Proceeds G (e.onDeviceCall call f).2 := by
  obtain ⟨-, hb⟩ := e.pool.device.takeFault_steady call
  have hcall : (e.pool.device.call call f).2.buffers = e.pool.device.buffers := by
    rcases e.pool.device.call_snd call f with heq | heq <;> rw [heq]
    · exact hb
    · exact hf _
  exact setDevice_proceeds hs hcall

theorem scheduleAll_proceeds {β : Type} (hs : e.Safe G) {l : List β} {f : β → Turn Int α}
    (hl : ∀ x ∈ l, ∀ n ∈ (f x).notes, e.Holds G n) :
    e.Proceeds G (l.foldl (fun e x => e.schedule 1 (f x)) e) := by
  induction l generalizing e with
  | nil => exact .refl hs
  | cons x l ih =>
    have hx := schedule_proceeds hs 1 (hl x (List.mem_cons_self ..))
    exact hx.trans (ih hx.safe fun y hy n hn => hx.keeps n (hl y (List.mem_cons_of_mem _ hy) n hn))

theorem unhold_proceeds (hw : e.Well G) : e.Proceeds G e.unhold := by
  have hset := @setDevice_proceeds _ _ _ _ _ _ hw.safe { e.pool.device with held := false } rfl
  have hdrop : (e.setDevice { e.pool.device with held := false }).Proceeds G
      { e with heldBack := [], pool := { e.pool with device := { e.pool.device with held := false } } } := by
    refine .same hset.safe rfl rfl rfl rfl rfl rfl rfl rfl fun n hn => .inl ?_
    rcases mem_notes.mp hn with hn | ⟨s, hs, -⟩ | hn
    · exact mem_notes.mpr (.inl hn)
    · exact absurd hs List.not_mem_nil
    · exact mem_notes.mpr (.inr (.inr hn))
  have hfree := hset.trans hdrop
  exact hfree.trans (scheduleAll_proceeds hfree.safe fun s hs n hn =>
    hfree.keeps n (hw.holds n (mem_notes.mpr (.inr (.inl ⟨s, hs, hn⟩)))))

theorem abort_proceeds (hs : e.Safe G) (signal : SignalId) (reason : Option Raised) :
    e.Proceeds G (e.abort signal reason) := by
  unfold abort
  split
  · exact .refl hs
  · have hset : e.Proceeds G { e with
        signals := e.signals.setIfInBounds signal (some (abortFailure reason))
        listeners := e.listeners.filter (·.1 != signal) } :=
      .same hs rfl rfl rfl rfl rfl rfl rfl rfl fun n hn => .inl hn
    exact hset.trans (scheduleAll_proceeds hset.safe fun x _ n hn => absurd hn List.not_mem_nil)

theorem lose_proceeds (hs : e.Safe G) (message : String) : e.Proceeds G (e.lose message) := by
  have hset : e.Proceeds G { e with lossAnnounced := true } :=
    .same hs rfl rfl rfl rfl rfl rfl rfl rfl fun n hn => .inl hn
  unfold lose
  split
  · exact .refl hs
  · dsimp only
    split
    · exact hset.trans (schedule_proceeds hset.safe 1 fun n hn => absurd hn List.not_mem_nil)
    · exact hset

theorem configure_proceeds (hs : e.Safe G) (change : Value α) : e.Proceeds G (e.configure change).2 := by
  unfold configure
  split
  · exact .refl hs
  · exact .same hs rfl rfl rfl rfl rfl rfl rfl rfl fun n hn => .inl hn

/-- All operations but a new composite call keep every promise, those of other callers included. -/
theorem carryOut_proceeds (hw : e.Well G) {op : Operation Int α} (h : op.spares = true)
    (hc : ∀ layers options verifies, op ≠ .composite layers options verifies) : e.Proceeds G (e.carryOut op).2 := by
  have hs := hw.safe
  cases op with
  | release h' => cases h
  | invalidate => cases h
  | closeArena closing => cases h
  | makePlan stack uploads => cases h
  | submit plan => cases h
  | composite layers options verifies => exact absurd rfl (hc layers options verifies)
  | allocate format size =>
    obtain ⟨herr, hok⟩ := Pool.allocate_spec hs.sound format size
    cases hr : (e.pool.allocate format size).1 with
    | error failure => exact onQuietPool_proceeds hs _ (herr failure hr)
    | ok handle =>
      obtain ⟨bytes, -, ha⟩ := hok handle hr
      exact onPool_proceeds hs _ ha.toLeads fun k hk => (ha.contains k).mpr (.inl hk)
  | resolve h' => exact .refl hs
  | acquire h' => exact onQuietPool_proceeds hs _ (Pool.acquire_spec hs.sound h')
  | contains h' => exact .refl hs
  | relinquish h' => exact onQuietPool_proceeds hs _ (Pool.relinquish_spec hs.sound h')
  | trim => exact onQuietPool_proceeds hs _ (Pool.trim_quiet hs.sound)
  | checkArena => exact .refl hs
  | read h' => exact .refl hs
  | supports key => exact .refl hs
  | hasPipeline key => exact .refl hs
  | lookUp key => exact lookupPipeline_proceeds hs key
  | clearPipelines => exact setCache_proceeds hs hs.right.clear.1 hs.right.clear.2
  | closePipelines closing => exact closePipelines_proceeds hs closing
  | takePlan plan => exact addPlan_proceeds hs plan
  | makeArray values => exact .same hs rfl rfl rfl rfl rfl rfl rfl rfl fun n hn => .inl hn
  | output plan => exact .refl hs
  | wait token => exact startWait_proceeds hs hw.holds token
  | destroy => exact destroy_proceeds hs
  | checkUsable => exact .refl hs
  | configure change => exact configure_proceeds hs change
  | config => exact .refl hs
  | newSignal => exact .same hs rfl rfl rfl rfl rfl rfl rfl rfl fun n hn => .inl hn
  | abort signal reason => exact abort_proceeds hs signal reason
  | inject filter message => exact onDeviceCall_proceeds hs _ fun _ => rfl
  | fault call raised => exact setDevice_proceeds hs rfl
  | lose message =>
    have hcall := onDeviceCall_proceeds hs .lose (f := id) fun _ => rfl
    unfold carryOut
    generalize e.onDeviceCall .lose id = r at hcall
    obtain ⟨r, e'⟩ := r
    cases r with
    | error failure => exact hcall
    | ok answer => exact hcall.trans (lose_proceeds hcall.safe message)
  | uncaptured message => exact report_proceeds hs _
  | hold => exact onDeviceCall_proceeds hs _ fun _ => rfl
  | unhold =>
    have hcall := onDeviceCall_proceeds hs .unhold (f := id) fun _ => rfl
    unfold carryOut
    generalize e.onDeviceCall .unhold id = r at hcall
    obtain ⟨r, e'⟩ := r
    cases r with
    | error failure => exact hcall
    | ok answer => exact hcall.trans (unhold_proceeds (hw.proceeds hcall))
  | gate => exact onDeviceCall_proceeds hs _ fun _ => rfl
  | openGate =>
    show e.Proceeds G (if e.pool.device.gates = 0 then (.error (.host .mistyped), e) else e.openGate.replyDone :
      Answered Int α).2
    split
    · exact .refl hs
    · exact openGate_proceeds hs hw.holds
  | refuseBuilds on => exact setDevice_proceeds hs rfl
  | limitAllocation limit => exact setDevice_proceeds hs rfl

/-! ## Composite calls -/

/-- A ledger may say more about numbers that no composite call has. -/
theorem Well.extend (hw : e.Well G) (hext : G.Extends G')
    (hnew : ∀ j o, G' j = some o → G j = some o ∨ j < e.jobs.size ∧ Stack.Sane o.layers) : e.Well G' := by
  have hs := hw.safe
  -- calls that are there were known before, so what is new in the ledger is about none of them
  have hback {j : JobId} {c : CompositeCall Int α} {o : Order α} (hc : e.call? j = some c) (ho : G' j = some o) :
      G j = some o := by
    obtain ⟨o', ho', -⟩ := hs.known j c hc
    rw [hext j o' ho'] at ho
    rw [ho']
    exact ho
  have hsafe : e.Safe G' :=
    { sound := hs.sound
      intact := hs.intact
      right := hs.right.mono hext.expects
      lone := hs.lone
      known := fun j c hc => by
        obtain ⟨o, ho, h⟩ := hs.known j c hc
        exact ⟨o, hext j o ho, h⟩
      asked := fun j o ho => by
        rcases hnew j o ho with ho | h
        · exact hs.asked j o ho
        · exact h
      filled := hs.filled
      spent := hs.spent
      watched := hs.watched
      drains := fun j c o plan token hc ho => hs.drains j c o plan token hc (hback hc ho)
      orderly := fun hr =>
        { live := (hs.orderly hr).live
          apart := (hs.orderly hr).apart
          staged := fun j c o hc ho => (hs.orderly hr).staged j c o hc (hback hc ho) } }
  refine ⟨hsafe, fun n hn => ?_⟩
  have hold := hw.holds n hn
  cases n with
  | arrives job index p =>
    obtain ⟨o, l, ho, h⟩ := hold
    exact ⟨o, l, hext job o ho, h⟩
  | gathered job ps =>
    intro hr
    obtain ⟨o, ho, h⟩ := hold hr
    exact ⟨o, hext job o ho, h⟩
  | yields job r =>
    obtain ⟨o, ho, h⟩ := hold
    exact ⟨o, hext job o ho, h⟩
  | builds serial key => exact hold
  | built serial a => exact hold
  | promises token ds =>
    have hold : e.Promises G token ds := hold
    refine ⟨hold.old, fun j c o plan hc ho => hold.covers j c o plan hc (hback hc ho), fun d hd => ?_⟩
    intro plan hplan
    obtain ⟨hcons, hall⟩ := hold.shows d hd plan hplan
    exact ⟨hcons, fun j c o token' hc ho => hall j c o token' hc (hback hc ho)⟩

def orderOf? (layers options : Value α) : Option (Order α) :=
  match parseLayers (ν := Int) layers, parseOptions options with
  | .ok (base :: above), .ok options => some ⟨base, above, options.outputFormat⟩
  | _, _ => none

omit [Transfer α] in
theorem enter_extends (hs : e.Safe G) (o : Option (Order α)) : G.Extends (G.enter e.jobs.size o) := by
  intro j o' ho'
  have hlt := (hs.asked j o' ho').1
  unfold Ledger.enter
  rw [if_neg (Nat.ne_of_lt hlt)]
  exact ho'

theorem enter_well [Channel.Ordered α] (hw : e.Well G) (layers options : Value α)
    (hfair : ∀ ls, parseLayers (ν := Int) layers = .ok ls → ∀ l ∈ ls, l.raster.texels.size ≤ longestArray) :
    (e.addJob .lookup).2.Well (G.enter e.jobs.size (orderOf? layers options)) := by
  have hadd := hw.proceeds
    (@addJob_proceeds _ _ _ _ _ _ hw.safe .lookup (fun p h => by cases h) fun c h => by cases h)
  have hsize : (e.addJob .lookup).2.jobs.size = e.jobs.size + 1 := Array.size_push ..
  apply hadd.extend (enter_extends hw.safe _)
  intro j o ho
  unfold Ledger.enter at ho
  split at ho
  · rename_i hj
    refine .inr ⟨by rw [hsize, hj]; exact Nat.lt_succ_self _, ?_⟩
    unfold orderOf? at ho
    split at ho
    · rename_i base above options hlayers _
      cases ho
      exact ⟨(parseLayers_valid hlayers).2, hfair _ hlayers⟩
    · cases ho
  · exact .inl ho

theorem startComposite_well [Channel.Ordered α] (hw : e.Well G) (layers options : Value α) (verifies : Bool)
    (hfair : ∀ ls, parseLayers (ν := Int) layers = .ok ls → ∀ l ∈ ls, l.raster.texels.size ≤ longestArray) :
    (e.startComposite layers options verifies).2.Well (G.enter e.jobs.size (orderOf? layers options)) := by
  have hwell := enter_well hw layers options hfair
  unfold startComposite
  generalize hG : G.enter e.jobs.size (orderOf? layers options) = G' at hwell
  have hask : G' e.jobs.size = orderOf? layers options := by
    rw [← hG]
    exact if_pos rfl
  have hfail (failure : Failure) : ((e.addJob .lookup).2.settle e.jobs.size (.error failure)).Well G' :=
    hwell.proceeds (settle_proceeds hwell.safe _ fun n hn => absurd hn List.not_mem_nil)
  dsimp only
  split
  · exact hfail _
  · exact hfail _
  · rename_i ls os hlayers hoptions
    split
    · exact hfail _
    · cases ls with
      | nil => exact absurd rfl (parseLayers_valid hlayers).1
      | cons base above =>
        have ho : G' e.jobs.size = some ⟨base, above, os.outputFormat⟩ := by
          rw [hask]
          unfold orderOf?
          rw [hlayers, hoptions]
        exact hwell.proceeds (startAttempt_proceeds hwell.safe ho rfl rfl)

/-! ## Runs -/

theorem Well.apply [Channel.Ordered α] (hw : e.Well G) {op : Operation Int α} (hf : (Move.call op).Fair) :
    ∃ G', G.Extends G' ∧ (e.apply op).2.Well G' := by
  obtain ⟨hspares, hfair⟩ := hf
  unfold Engine.apply
  split
  · exact ⟨G, .refl G, hw⟩
  · by_cases hc : ∃ layers options verifies, op = .composite layers options verifies
    · obtain ⟨layers, options, verifies, rfl⟩ := hc
      exact ⟨_, enter_extends hw.safe _, startComposite_well hw layers options verifies
        (hfair layers options verifies rfl)⟩
    · exact ⟨G, .refl G, hw.proceeds (carryOut_proceeds hw hspares fun layers options verifies h =>
        hc ⟨layers, options, verifies, h⟩)⟩

theorem Well.move [Channel.Ordered α] (hw : e.Well G) {m : Move Int α} (hf : m.Fair) :
    ∃ G', G.Extends G' ∧ (e.move m).Well G' := by
  cases m with
  | call op => exact hw.apply hf
  | turn n =>
    refine ⟨G, .refl G, ?_⟩
    unfold Engine.move
    dsimp only
    split
    · rename_i delay t ht
      exact hw.proceeds (take_proceeds hw (List.mem_of_getElem? ht) (List.eraseIdx_subset ..))
    · exact hw
  | fire => exact ⟨G, .refl G, hw.proceeds (fire_proceeds hw)⟩

theorem Well.run [Channel.Ordered α] (hw : e.Well G) {moves : List (Move Int α)} (hf : ∀ m ∈ moves, m.Fair) :
    ∃ G', G.Extends G' ∧ (e.run moves).Well G' := by
  induction moves generalizing e G with
  | nil => exact ⟨G, .refl G, hw⟩
  | cons m moves ih =>
    obtain ⟨G', hext, hw'⟩ := hw.move (hf m (List.mem_cons_self ..))
    obtain ⟨G'', hext', hw''⟩ := ih hw' fun m hm => hf m (List.mem_cons_of_mem _ hm)
    exact ⟨G'', hext.trans hext', hw''⟩

/-- A session on which nothing has been done. Its pool may hold any buffers with any contents, and slots
that are somebody else's. -/
structure Blank (e : Engine Int α) : Prop where
  sound : e.pool.Sound
  intact : e.pool.Intact
  session : e.session = {}
  entries : e.cache.entries = []
  builds : e.cache.inFlight = []
  plans : e.plans = #[]
  jobs : e.jobs = #[]
  turns : e.turns = []
  heldBack : e.heldBack = []
  gated : e.gated = []
  completion : e.completion = .ofPlatform e.completion.platform
  settled : e.settled = []

theorem Blank.well (h : e.Blank) : e.Well fun _ => none := by
  have hcall (j : JobId) (c : CompositeCall Int α) : e.call? j ≠ some c := by
    intro hc
    rw [call?_eq, h.jobs] at hc
    cases hc
  refine ⟨?_, fun n hn => ?_⟩
  · exact
    { sound := h.sound
      intact := fun _ => h.intact
      right := ⟨by simp [h.builds], by simp [h.entries], by simp [h.entries], by simp [h.builds]⟩
      lone := fun j p hp => by
        rw [h.jobs] at hp
        cases hp
      known := fun j c hc => absurd hc (hcall j c)
      asked := fun j o ho => by cases ho
      filled := fun i rec hi => by
        rw [h.plans] at hi
        cases hi
      spent := fun plan hplan => by
        rw [h.session] at hplan
        cases hplan
      watched := fun id hid => by
        rw [h.completion] at hid
        cases hp : e.completion.platform <;> (rw [hp] at hid; cases hid)
      drains := fun j c o plan token hc => absurd hc (hcall j c)
      orderly := fun _ =>
        { live := fun j c hc => absurd hc (hcall j c)
          apart := fun i j c d _ hc => absurd hc (hcall i c)
          staged := fun j c o hc => absurd hc (hcall j c) } }
  · have houtcomes : e.completion.outcomes = [] := by
      rw [h.completion]
      cases e.completion.platform <;> rfl
    rw [mem_notes, h.turns, h.heldBack, h.gated, houtcomes, h.settled] at hn
    simp at hn

/-- A session after any run. -/
def Reached (e : Engine Int α) : Prop :=
  ∃ (e₀ : Engine Int α) (moves : List (Move Int α)), e₀.Blank ∧ (∀ m ∈ moves, m.Fair) ∧ e = e₀.run moves

theorem Reached.well [Channel.Ordered α] (h : e.Reached) : ∃ G, e.Well G := by
  obtain ⟨e₀, moves, hblank, hfair, rfl⟩ := h
  obtain ⟨G, -, hw⟩ := hblank.well.run hfair
  exact ⟨G, hw⟩

end Engine

end Strata
