import Strata.Proofs.Engine.Draining
import Strata.Proofs.Engine.Gathering

/-!
# A call that is alone

In a calm session with nothing else under way, a composite call whose layers the device can take comes to its end.
If every layer fits, its pipelines gather, its plan is made and submitted, and its submission drains
(`startAttempt_answers`); if one does not, the stack is refused for its formats (`startAttempt_refuses`).
-/

namespace Strata

variable {α : Type}

/-! ## The slots of a call -/

def Layer.bytes (l : Layer Int α) : Nat :=
  l.raster.width.toNat * l.raster.height.toNat * l.raster.format.bytesPerPixel

/-- Bytes of the slots that a call allocates, in order: for its layers, its result, its working images and its
parameter blocks. -/
def Order.sizes (o : Order α) : List Nat :=
  o.layers.map Layer.bytes ++ 16 * o.count :: Draft.planSizes o.layers.length (16 * o.count)

theorem wholeWords_workingBytes {width height : Int} (hw : 0 < width) (hh : 0 < height) :
    Measure.wholeWords? (workingBytes width height) = some (16 * (width.toNat * height.toNat)) := by
  have h := wholeWords_imageBytes .float32 hw hh
  rw [Nat.mul_comm] at h
  exact h

namespace Engine

theorem allocateSources_complete [Channel α] {pool : Pool Int α} {layers : List (Layer Int α)} {rest : List Nat}
    (hv : ∀ l ∈ layers, l.Valid) (h : pool.Spacious (layers.map Layer.bytes ++ rest)) :
    ∃ sources pool', allocateSources pool layers = (.ok (), sources, pool') ∧ pool'.Spacious rest := by
  induction layers generalizing pool with
  | nil => exact ⟨[], pool, rfl, h⟩
  | cons l layers ih =>
    obtain ⟨hw, hh⟩ := (hv l (List.mem_cons_self ..)).positive
    obtain ⟨handle, pool₁, halloc, hroom⟩ := Pool.Spacious.allocate h
      (.image .storage l.raster.format l.raster.width l.raster.height) (wholeWords_imageBytes l.raster.format hw hh)
    obtain ⟨sources, pool₂, hrest, hroom'⟩ := ih (fun l hl => hv l (List.mem_cons_of_mem _ hl)) hroom
    unfold allocateSources
    dsimp only
    rw [halloc]
    dsimp only
    rw [hrest]
    exact ⟨_, _, rfl, hroom'⟩

/-! ## Submitting -/

theorem pushScopes_calm {d : Device Int α} (hf : d.faults = []) (hi : d.injected = []) :
    pushScopes d = (.ok (), { d with scopes := (.validation, none) :: (.outOfMemory, none) :: d.scopes }) := by
  have hpush (d : Device Int α) (hf : d.faults = []) (hi : d.injected = []) (filter : ScopeFilter) :
      d.pushScope filter = (.ok (), { d with scopes := (filter, none) :: d.scopes }) := by
    unfold Device.pushScope
    rw [Device.call_unfaulted hf, hi]
    rfl
  unfold pushScopes
  rw [hpush d hf hi]
  dsimp only
  rw [hpush { d with scopes := (.outOfMemory, none) :: d.scopes } hf hi]

theorem popScope_calm {d : Device Int α} (hf : d.faults = []) {filter : ScopeFilter}
    {rest : List (ScopeFilter × Option String)} (hs : d.scopes = (filter, none) :: rest) :
    d.popScope = (.ok none, { d with scopes := rest }) := by
  unfold Device.popScope
  rw [Pool.takeFault_of_not_mem fun r => by simp [hf]]
  dsimp only
  rw [hs]

theorem acquireAll_live {pool : Pool Int α} (hp : pool.Sound) (taken : List Handle) {handles : List Handle}
    (hl : ∀ h ∈ handles, pool.arena.contains h = true) : (acquireAll pool taken handles).1 = .ok () := by
  induction handles generalizing pool taken with
  | nil => rfl
  | cons h rest ih =>
    have hquiet := Pool.acquire_spec hp h
    obtain ⟨r, hr⟩ := Pool.acquire_ok hp (hl h (List.mem_cons_self ..))
    unfold acquireAll
    generalize pool.acquire h = acquired at hquiet hr
    obtain ⟨result, pool'⟩ := acquired
    cases hr
    exact ih hquiet.sound _ fun k hk => hquiet.contains ▸ hl k (List.mem_cons_of_mem _ hk)

section
variable [Channel α] [Stored α] [Transfer α] {G : Ledger α} {e e' : Engine Int α} {job : JobId}
  {c : CompositeCall Int α} {o : Order α} {plan : PlanId}

/-- A plan that can be submitted, over slots that are large enough. -/
structure Submittable (e : Engine Int α) (o : Order α) (held : List Handle) (plan : PlanId) : Prop where
  fresh : plan ∉ e.session.consumed
  housed : ∃ rec destination parts last, e.plans[plan]? = some rec ∧
    Stack.Carries o.width o.height o.layers held destination parts last rec.plan ∧
    Stack.Housed e.pool.arena o.width o.height parts destination

/-- Stages that come to their end between two scopes leave a device without faults as it was, and nothing captured.
-/
theorem ran_calm (token : SubmissionId) {arena : Arena Int} {device device' : Device Int α}
    {stages : List (Stage Int α)} {ds : List (Download Int)} (hfaults : device.faults = [])
    (hrun : Encoder.run arena plan { device with
      scopes := (.validation, none) :: (.outOfMemory, none) :: device.scopes } stages = (.ok ds, device')) :
    ran token plan arena
        { device with scopes := (.validation, none) :: (.outOfMemory, none) :: device.scopes } stages =
      (⟨token, .ok none, .ok none, .ok ds⟩, { device' with scopes := device.scopes }) ∧
    device.Steady { device' with scopes := device.scopes } := by
  have hsteady := (@Encoder.run_writes _ _ arena plan _ _ _ _ { device with
    scopes := (.validation, none) :: (.outOfMemory, none) :: device.scopes } stages).1
  rw [hrun] at hsteady
  have hfaults' : device'.faults = [] := List.eq_nil_of_subset_nil (hfaults ▸ hsteady.faults)
  have hvalidation := popScope_calm hfaults' hsteady.scopes
  have hmemory := popScope_calm (d := { device' with scopes := (.outOfMemory, none) :: device.scopes }) hfaults' rfl
  refine ⟨?_, hsteady.faults, rfl, hsteady.injected, hsteady.held, hsteady.refusesBuilds, hsteady.gate⟩
  unfold ran
  rw [hrun]
  dsimp only
  rw [hvalidation]
  dsimp only
  rw [hmemory]
  rfl

theorem Submittable.ran (h : e.Submittable o c.held plan) (hs : e.Safe G) (hcalm : e.Calm) (ho : G job = some o)
    (hc : e.call? job = some c) (hphase : c.phase = .planned (.ok plan)) :
    ∃ rec pool device d device', e.Accepts plan rec pool device ∧
      Engine.ran e.token plan pool.arena device rec.plan.stages =
        (⟨e.token, .ok none, .ok none, .ok [d]⟩, device') ∧
      e.pool.device.Steady device' ∧ d.target = .output plan := by
  obtain ⟨rec, destination, parts, last, hrec, hcarries, hhoused⟩ := h.housed
  have hsane := (hs.asked job o ho).2
  obtain ⟨hw, hh⟩ := (hsane.valid o.base (List.mem_cons_self ..)).positive
  have hlive (k : Handle) (hk : k ∈ c.held ∨ k ∈ rec.plan.owned) : e.pool.arena.contains k = true := by
    refine (hs.orderly hcalm.ready).live job c hc k ?_
    rw [claims_of_plan (by rw [hphase]; rfl) hrec]
    exact List.mem_append.mpr hk
  have hacquired := acquireAll_live hs.sound [] fun k hk => hlive k (hcarries.handles_mem hk)
  have hquiet := acquireAll_quiet hs.sound [] (rec.plan.stages.flatMap Stage.handles)
  generalize hpool : acquireAll e.pool [] (rec.plan.stages.flatMap Stage.handles) = acquired at hacquired hquiet
  obtain ⟨result, pool⟩ := acquired
  cases hacquired
  have hsteady : e.pool.device.Steady pool.device := hquiet.device
  have hfaults : pool.device.faults = [] := List.eq_nil_of_subset_nil (hcalm.faults ▸ hsteady.faults)
  have hopened := pushScopes_calm hfaults (hsteady.injected.trans hcalm.injected)
  have hkept (k : Handle) (hk : e.pool.arena.contains k = true) : pool.arena.contains k = true :=
    hquiet.contains ▸ hk
  obtain ⟨device', hrun⟩ : ∃ device', Encoder.run pool.arena plan { pool.device with
      scopes := (.validation, none) :: (.outOfMemory, none) :: pool.device.scopes } rec.plan.stages =
        (.ok [⟨pool.arena.bufferOf destination, workingBytes o.width o.height, .output plan⟩], device') :=
    (hhoused.later hquiet.later hkept).finishes hcarries hquiet.sound (fun k hk => hkept k (hlive k hk)) hsane.valid
      hsane.fitsWord.1 hsane.fitsWord.2 hw hh rfl hfaults
  obtain ⟨hran, hsteady'⟩ := ran_calm e.token hfaults hrun
  exact ⟨rec, pool, _, _, _, ⟨hcalm.ready, hrec, h.fresh, hpool, hopened⟩, hran, hsteady.trans hsteady', rfl⟩

omit [Channel α] [Stored α] [Transfer α] in
theorem waitFor_sent {token : SubmissionId} {t : Turn Int α} {delay : Nat} (hcalm : e.Calm)
    (hc : e.call? job = some c) (hphase : c.phase = .draining plan token) (hmem : token ∈ e.session.unawaited)
    (hwait : (e.completion.wait token job).1 = .suspended)
    (hhears : ∀ outcome, ((e.completion.wait token job).2.settle token outcome).1 = [(job, outcome)])
    (hlistens : e.Listens job c token) (hturns : e.turns = [(delay, t)]) :
    (e.waitFor job token).settled = e.settled ∧ (e.waitFor job token).Sent job c plan token t := by
  have heq : e.waitFor job token = { e with
      session := { e.session with unawaited := e.session.unawaited.erase token }
      completion := (e.completion.wait token job).2 } := by
    unfold waitFor
    rw [hcalm.ready, if_neg (by decide), if_neg (not_not_intro hmem)]
    dsimp only
    generalize e.completion.wait token job = waited at hwait
    obtain ⟨reply, completion⟩ := waited
    cases hwait
    rfl
  rw [heq]
  exact ⟨rfl, ⟨⟨{ hcalm with }, hc, hphase, delay, hturns⟩, hhears, hlistens⟩⟩

omit [Transfer α] in
/-- Nobody knows of the next submission yet. -/
theorem Safe.token_new (hs : e.Safe G) : e.token ∉ e.completion.ids := fun hid => by
  obtain ⟨n, hlt, heq⟩ := hs.watched _ hid
  have hn : e.session.nextToken = n := Ident.number.inj heq
  omega

theorem Submittable.sends (h : e.Submittable o c.held plan) (hs : e.Safe G) (hcalm : e.Calm) (ho : G job = some o)
    (hc : e.call? job = some c) (hphase : c.phase = .planned (.ok plan)) (habort : e.abortReason? c.signal = none)
    (hturns : e.turns = []) :
    ∃ d, d.target = .output plan ∧ (e.planned job).settled = e.settled ∧
      (e.planned job).Sent job { c with phase := .draining plan e.token } plan e.token
        (.scopesClosed ⟨e.token, .ok none, .ok none, .ok [d]⟩) := by
  obtain ⟨rec, pool, device, d, device', haccepts, hran, hsteady, hplan⟩ := h.ran hs hcalm ho hc hphase
  obtain ⟨hsuspended, hhears⟩ := Completion.hears hs.token_new job
  refine ⟨d, hplan, ?_⟩
  unfold planned
  rw [hc]
  dsimp only
  rw [hphase]
  dsimp only
  rw [habort]
  dsimp only
  rw [haccepts.submit]
  dsimp only
  unfold submitting
  rw [hran]
  dsimp only
  have hlt := lt_of_call? hc
  have hone {t : Nat × Turn Int α} : e.turns ++ [t] = [t] := congrArg (· ++ [t]) hturns
  have hmem : e.token ∈ e.session.unawaited ++ [e.token] := List.mem_append_right _ (List.mem_singleton_self _)
  cases hsignal : c.signal with
  | none =>
    exact waitFor_sent (hcalm.steady rfl rfl hsteady) (call?_setCall_self hlt _) rfl hmem hsuspended hhears
      (fun h => by cases h) hone
  | some signal =>
    refine waitFor_sent (hcalm.steady rfl rfl hsteady) (call?_setCall_self hlt _) rfl hmem hsuspended hhears
      (fun _ => ?_) hone
    exact List.any_eq_true.mpr ⟨_, List.mem_append_right _ (List.mem_singleton_self _), beq_self_eq_true _⟩

/-! ## Making the plan -/

omit [Stored α] [Transfer α] in
theorem mem_stackSteps {width height : Int} {bottom : Bool} {layers : List (Layer Int α)} {sources : List Handle}
    {step : PlanStep Int α} (h : step ∈ Draft.stackSteps width height bottom layers sources) :
    step.source ∈ sources := by
  induction layers generalizing bottom sources with
  | nil => cases h
  | cons l layers ih =>
    cases sources with
    | nil => cases h
    | cons source sources =>
      rcases List.mem_cons.mp h with rfl | h
      · exact List.mem_cons_self ..
      · exact List.mem_cons_of_mem _ (ih h)

/-- The slots of a call were allocated for its layers. -/
def Stocks (e : Engine Int α) (o : Order α) (held : List Handle) : Prop :=
  ∃ sources destination, held = sources ++ [destination] ∧
    List.Forall₂ (Layer.Stocked e.pool.arena) o.layers sources

omit [Transfer α] in
theorem Drafted.emits {pool : Pool Int α} {held : List Handle} {p : Planning Int α}
    (h : Drafted pool.arena o held p) (hs : pool.Sound) (hbase : o.base.Valid)
    (hl : ∀ k ∈ held, pool.arena.contains k = true)
    (hroom : pool.Spacious (Draft.planSizes o.layers.length (16 * o.count))) (pipelines : List Pipeline) :
    ∃ plan pool', p.draft.emit pipelines pool = (.ok plan, pool') := by
  obtain ⟨sources, destination, hheld, hlength, hdraft, r, hr, hformat, -⟩ := h.slots
  have hsteps := @Draft.length_stackSteps _ _ o.width o.height true _ _ hlength
  have hworking : Measure.wholeWords? (workingBytes r.format.width r.format.height) = some (16 * o.count) := by
    rw [hformat]
    exact wholeWords_workingBytes hbase.positive.1 hbase.positive.2
  rw [← List.append_nil (Draft.planSizes _ _), ← hsteps] at hroom
  obtain ⟨plan, pool', hemit, -⟩ : ∃ plan pool', p.draft.emit pipelines pool = (.ok plan, pool') ∧
      pool'.Spacious [] := by
    rw [hdraft]
    refine Draft.emit_complete hr (fun step hstep => hl _ ?_) hs hworking ?_ hroom
    · rw [hheld]
      exact List.mem_append_left _ (mem_stackSteps hstep)
    · refine fun hnil => absurd (congrArg List.length hnil) ?_
      rw [hsteps]
      exact Nat.succ_ne_zero _
  exact ⟨plan, pool', hemit⟩

omit [Transfer α] in
theorem planReady_made {p : Planning Int α} (hc : e.call? job = some { c with phase := .planning p })
    {pipelines : List Pipeline} {plan : Plan Int α} {pool : Pool Int α}
    (hemit : p.draft.emit pipelines e.pool = (.ok plan, pool)) :
    e.planReady job (.ok pipelines) = ({ e with pool, plans := e.plans.push ⟨plan, #[]⟩ }.setCall job
      { c with phase := .planned (.ok e.plans.size) }).schedule 1 (.planned job) := by
  unfold planReady
  rw [planning?_of_call hc rfl]
  dsimp only
  rw [hemit]
  exact planMade_eq (e := { e with pool, plans := e.plans.push ⟨plan, #[]⟩ }) hc _

theorem planReady_submittable (hw : e.Well G) (hcalm : e.Calm) {p : Planning Int α}
    (hc : e.call? job = some { c with phase := .planning p }) (ho : G job = some o) {pipelines : List Pipeline}
    (hturns : e.turns = [(1, .planReady job (.ok pipelines))]) (hstocks : e.Stocks o c.held)
    (hroom : e.pool.Spacious (Draft.planSizes o.layers.length (16 * o.count))) :
    ∃ e' plan, e.Comes e' ∧ e.Rests e' ∧ e'.Calm ∧ e'.turns = [(1, .planned job)] ∧
      e'.call? job = some { c with phase := .planned (.ok plan) } ∧ e'.Submittable o c.held plan := by
  have hs := hw.safe
  have hlive (k : Handle) (hk : k ∈ c.held) : e.pool.arena.contains k = true :=
    (hs.orderly hcalm.ready).live job _ hc k (Change.mem_claims hk)
  have hdrafted := ((hs.orderly hcalm.ready).staged job _ o hc ho).drafted p rfl
  obtain ⟨o', ho', hprograms⟩ := hw.holds (.gathered job pipelines)
    (mem_notes.mpr (.inl ⟨_, hturns ▸ List.mem_singleton_self _, List.mem_singleton_self _⟩)) hcalm.ready
  obtain rfl : o = o' := Option.some.inj (ho.symm.trans ho')
  have hbase := (hs.asked job o ho).2.valid o.base (List.mem_cons_self ..)
  obtain ⟨plan, pool, hemit⟩ := hdrafted.emits hs.sound hbase hlive hroom pipelines
  obtain ⟨destination, parts, last, hcarries, hhoused⟩ := hdrafted.carries hs.sound rfl hlive hprograms hemit
  obtain ⟨_, -, _, _, _, -, hprovided⟩ := Draft.emit_drawn hs.sound hemit
  obtain ⟨grants, hgains, -⟩ := hprovided.gains
  -- what was allocated for the layers is what the parts of the plan read
  have hparts : ∀ part ∈ parts, part.layer.Stocked e.pool.arena part.source := by
    obtain ⟨sources', destination', hheld', hstocked⟩ := hstocks
    have hsources : sources' = parts.map (·.source) :=
      (List.append_inj' (hheld'.symm.trans hcarries.slots) rfl).1
    rw [hsources, ← hcarries.stack, List.forall₂_map_left_iff, List.forall₂_map_right_iff, List.forall₂_same]
      at hstocked
    exact hstocked
  have hcomes : e.Comes (({ e with turns := [] } : Engine Int α).planReady job (.ok pipelines)) :=
    Comes.single hturns
  rw [planReady_made (e := { e with turns := [] }) hc hemit] at hcomes
  have hcalm' : ({ e with turns := [], pool } : Engine Int α).Calm := hcalm.steady rfl rfl hgains.device
  refine ⟨_, e.plans.size, hcomes, ⟨rfl, rfl, rfl, rfl, rfl, rfl⟩, { hcalm' with }, rfl,
    call?_setCall_self (lt_of_call? hc) _, fun hmem => Nat.lt_irrefl _ (hs.spent _ hmem),
    ⟨plan, #[]⟩, destination, parts, last, ?_, hcarries, hhoused hparts⟩
  exact Array.getElem?_push_size

/-! ## Starting -/

/-- What a call has when it has its slots: the rest of the engine is as it was, and there is room for the plan. -/
structure Slotted (e : Engine Int α) (job : JobId) (c : CompositeCall Int α) (o : Order α) (pool : Pool Int α)
    (sources : List Handle) (destination : Handle) : Prop where
  starts : e.startAttempt job c = ({ e with pool } : Engine Int α).planAttempt job c destination sources
  gains : ∃ grants, e.pool.Gains pool grants
  stocked : List.Forall₂ (Layer.Stocked pool.arena) o.layers sources
  receives : Draft.Receives pool.arena o.width o.height destination
  room : pool.Spacious (Draft.planSizes o.layers.length (16 * o.count))

omit [Stored α] [Transfer α] in
theorem startAttempt_slotted (hs : e.pool.Sound) (hready : e.session.phase = .ready) (hlayers : c.layers = o.layers)
    (hv : ∀ l ∈ o.layers, l.Valid) (hroom : e.pool.Spacious o.sizes) :
    ∃ pool sources destination, e.Slotted job c o pool sources destination := by
  obtain ⟨hwidth, hheight⟩ := (hv o.base (List.mem_cons_self ..)).positive
  obtain ⟨sources, pool, hsources, hroom'⟩ := allocateSources_complete hv hroom
  obtain ⟨destination, pool', halloc, hroom''⟩ := hroom'.allocate (.image .readback .float32 o.width o.height)
    (wholeWords_workingBytes hwidth hheight)
  obtain ⟨grants, hgains, -, hstocked⟩ := allocateSources_gains hs o.layers
  rw [hsources] at hgains hstocked
  have hspec := (Pool.allocate_spec hgains.sound (.image .readback .float32 o.width o.height)
    (workingBytes o.width o.height)).2
  rw [halloc] at hspec
  obtain ⟨bytes, hbytes, hallocated⟩ := hspec destination rfl
  have hlast := Pool.Gains.of_allocated hallocated
  obtain ⟨b, hb⟩ := hlast.resolves _ (List.mem_singleton_self _)
  refine ⟨pool', sources, destination, ?_, ⟨_, hgains.trans hlast⟩, ?_, ⟨_, hb, rfl, hbytes⟩, hroom''⟩
  · unfold startAttempt Session.checkUsable
    rw [hready, hlayers]
    dsimp only [Order.layers, List.head?_cons]
    rw [show allocateSources e.pool (o.base :: o.above) = _ from hsources]
    dsimp only
    rw [show pool.allocate (.image .readback .float32 o.base.raster.width o.base.raster.height)
      (workingBytes o.base.raster.width o.base.raster.height) = _ from halloc]
  · refine (hstocked rfl).imp fun l source h => ?_
    obtain ⟨r, hr, hf, hsize⟩ := h
    exact ⟨r, hlast.resolve hr, hf, hsize⟩

/-- What a call needs is there: room for its slots, a device that can take its layers, and the programs to blend
them. -/
structure Admits (e : Engine Int α) (o : Order α) : Prop where
  room : e.pool.Spacious o.sizes
  affords : Draft.Affords e.capabilities o.width o.height o.layers
  serves : Draft.Serves e.cache.library o.layers

omit [Channel α] [Stored α] [Transfer α] in
theorem Keeps.spacious (h : e.Keeps e') {sizes : List Nat} (hs : e.pool.Spacious sizes) :
    e'.pool.Spacious sizes where
  isOpen := h.arena ▸ hs.isOpen
  faults r hr := hs.faults r (h.device.faults hr)
  limit := h.limit ▸ hs.limit
  memory := hs.memory
  budget := h.arena ▸ hs.budget

section
variable {pool : Pool Int α} {sources : List Handle} {destination : Handle}

omit [Stored α] [Transfer α] in
theorem Slotted.checkOpen (h : e.Slotted job c o pool sources destination) : pool.arena.checkOpen = .ok () := by
  unfold Arena.checkOpen
  rw [h.room.isOpen]

omit [Stored α] [Transfer α] in
/-- A call with slots waits for its pipelines, if its layers fit. -/
theorem Slotted.awaits (h : e.Slotted job c o pool sources destination) (hcalm : e.Calm) (hidle : e.Idle)
    (hadmits : e.Admits o) (hv : ∀ l ∈ o.layers, l.Valid) (hlayers : c.layers = o.layers) (hj : job < e.jobs.size)
    (hfits : o.Fits) :
    ∃ p, ({ e with pool } : Engine Int α).Keeps (e.startAttempt job c) ∧
      (e.startAttempt job c).Awaits job { c with held := sources ++ [destination] } p := by
  obtain ⟨grants, hgains⟩ := h.gains
  obtain ⟨draft, hcheck⟩ :=
    (Draft.check_complete h.checkOpen h.receives h.stocked hv hadmits.affords hadmits.serves).1 hfits
  obtain ⟨hdraft, -, hresolves⟩ := Draft.check_stack h.receives h.stocked hcheck
  have hsteps : (Draft.stackSteps o.width o.height true o.layers sources).length = o.layers.length :=
    Draft.length_stackSteps h.stocked.length_eq.symm
  have hne : draft.steps ≠ [] := by
    rw [hdraft]
    exact fun hnil => absurd (hsteps.symm.trans (congrArg List.length hnil)) (Nat.succ_ne_zero _)
  obtain ⟨e', p, hbegin, -, hkeeps, hawaits⟩ := beginPlanning_awaits (e := { e with pool })
    (hcalm.steady rfl rfl hgains.device) hidle.turns hidle.builds hidle.entries hj hcheck hne hresolves
    { c with held := sources ++ [destination] }
  have hbegin : ({ e with pool } : Engine Int α).beginPlanning job
      (List.zipWith (Layer.descriptor destination) o.layers sources)
      (List.zipWith Layer.upload o.layers sources) = (.ok p, e') := hbegin
  have hstart : e.startAttempt job c =
      e'.setCall job { c with held := sources ++ [destination], phase := .planning p } := by
    rw [h.starts]
    unfold planAttempt
    dsimp only
    rw [hlayers, stackOf_complete sources hv]
    dsimp only
    rw [uploadsOf_eq, hbegin]
  rw [hstart]
  exact ⟨p, hkeeps.trans (.setCall e' _), hawaits⟩

omit [Stored α] [Transfer α] in
theorem Slotted.refused (h : e.Slotted job c o pool sources destination) (hadmits : e.Admits o)
    (hv : ∀ l ∈ o.layers, l.Valid) (hlayers : c.layers = o.layers) (hfits : ¬ o.Fits) :
    ∃ failure : Failure, failure.code? = some .incompatibleFormats ∧ e.startAttempt job c =
      (({ e with pool } : Engine Int α).setCall job
        { c with held := sources ++ [destination], phase := .planned (.error failure) }).schedule 1
        (.planned job) := by
  obtain ⟨failure, hcheck, hcode⟩ :=
    (Draft.check_complete h.checkOpen h.receives h.stocked hv hadmits.affords hadmits.serves).2 hfits
  have hcheck : Draft.check pool.arena e.capabilities e.cache.library
    (List.zipWith (Layer.descriptor destination) o.layers sources) (List.zipWith Layer.upload o.layers sources) =
      .error failure := hcheck
  refine ⟨failure, hcode, ?_⟩
  rw [h.starts]
  unfold planAttempt
  dsimp only
  rw [hlayers, stackOf_complete sources hv]
  dsimp only
  unfold beginPlanning
  rw [uploadsOf_eq, hcheck]

end

/-! ## From the start to the answer -/

/-- A call whose layers fit answers with a raster. -/
theorem startAttempt_answers (hw : e.Well G) (hcalm : e.Calm) (hidle : e.Idle) (ho : G job = some o)
    (hlayers : c.layers = o.layers) (hformat : c.outputFormat = o.outputFormat) (hverifies : c.verifies = false)
    (habort : e.abortReason? c.signal = none) (hadmits : e.Admits o) (hfits : o.Fits) :
    ∃ e' r, (e.startAttempt job c).Comes e' ∧ e'.turns = [] ∧ e'.settled = e.settled ++
    [(job, .ok (.raster r))] := by
  obtain ⟨hj, hsane⟩ := hw.safe.asked job o ho
  obtain ⟨pool, sources, destination, hslotted⟩ :=
    startAttempt_slotted hw.safe.sound hcalm.ready hlayers hsane.valid hadmits.room
  obtain ⟨p, hkeeps₁, hawaits⟩ := hslotted.awaits hcalm hidle hadmits hsane.valid hlayers hj hfits
  have hw₁ := hw.proceeds (startAttempt_proceeds hw.safe ho hlayers hformat)
  obtain ⟨e₂, hgathered⟩ := hawaits.comes
  have hkeeps := hkeeps₁.trans hgathered.keeps
  obtain ⟨pipelines, hturns⟩ := hgathered.turns
  obtain ⟨p', hcall, -⟩ := hgathered.call
  have hw₂ := hw₁.comes hgathered.comes
  obtain ⟨e₃, plan, hcomes₃, hrests, hcalm₃, hturns₃, hcall₃, hsubmittable⟩ :=
    planReady_submittable hw₂ hgathered.calm
    hcall ho hturns ⟨sources, destination, rfl, hkeeps.arena ▸ hslotted.stocked⟩ (hkeeps.spacious hslotted.room)
  have hw₃ := hw₂.comes hcomes₃
  have habort₃ : e₃.abortReason? c.signal = none := by
    unfold abortReason?
    rw [hrests.signals, hkeeps.signals]
    exact habort
  have hcomes₄ : e₃.Comes (({ e₃ with turns := [] } : Engine Int α).planned job) := Comes.single hturns₃
  have hsafe₃ := (hw₃.proceeds (dropTurns_proceeds hw₃.safe (List.nil_subset _))).safe
  obtain ⟨d, hplan, hsettled, hsent⟩ := Submittable.sends (e := { e₃ with turns := [] })
    (c := { c with held := sources ++ [destination], phase := .planned (.ok plan) })
    ⟨hsubmittable.fresh, hsubmittable.housed⟩ hsafe₃ { hcalm₃ with } ho hcall₃ rfl habort₃ rfl
  obtain ⟨e₅, r, hcomes₅, hturns₅, hsettled₅⟩ := hsent.answers (hw₃.comes hcomes₄) rfl rfl rfl rfl hplan hverifies
  refine ⟨e₅, r, ((hgathered.comes.trans hcomes₃).trans hcomes₄).trans hcomes₅, hturns₅, ?_⟩
  rw [hsettled₅, hsettled]
  exact congrArg (· ++ _) (hrests.settled.trans hkeeps.settled)

theorem attemptEnded_fails (hc : e.call? job = some c) {failure : Failure}
    (hcode : failure.code? ≠ some .outOfMemory) :
    e.attemptEnded job (.error failure) = e.settle job (.error failure) := by
  unfold attemptEnded
  rw [hc]
  dsimp only
  rw [if_neg fun hm => hcode hm.1]

theorem planned_fails (hp : e.pool.Sound) (hd : e.pool.Destroys) (hc : e.call? job = some c) {failure : Failure}
    (hphase : c.phase = .planned (.error failure)) (hcode : failure.code? ≠ some .outOfMemory)
    (hturns : e.turns = [(1, .planned job)]) :
    ∃ e', e.Comes e' ∧ e'.turns = [] ∧ e'.settled = e.settled ++ [(job, .error failure)] := by
  have hdone := (Pool.releaseLive_spec hp (c.held ++ [])).2.2 hd
  have hleave : ({ e with turns := [] } : Engine Int α).planned job =
      ({ e with turns := [] } : Engine Int α).leave job [] (.error failure) := by
    unfold planned
    rw [show ({ e with turns := [] } : Engine Int α).call? job = some c from hc]
    dsimp only
    rw [hphase]
  rw [leave_eq (e := { e with turns := [] }) hc] at hleave
  dsimp only at hleave
  generalize e.pool.releaseLive (c.held ++ []) = released at hleave hdone
  obtain ⟨result, pool⟩ := released
  cases hdone
  have hcomes₁ : e.Comes (({ e with turns := [] } : Engine Int α).planned job) := Comes.single hturns
  rw [hleave] at hcomes₁
  have hcomes₂ := Comes.single (show ((({ e with pool, turns := [] } : Engine Int α).setCall job
    { c with held := [], phase := .ended }).schedule 1 (.attemptEnded job (.error failure))).turns =
      [(1, _)] from rfl)
  have hended := attemptEnded_fails
    (call?_setCall_self (e := { e with pool, turns := [] }) (lt_of_call? hc) { c with held := [], phase := .ended })
    hcode
  exact ⟨_, hcomes₁.trans hcomes₂, congrArg Engine.turns hended, congrArg Engine.settled hended⟩

theorem startAttempt_refuses (hs : e.Safe G) (hcalm : e.Calm) (hturns : e.turns = []) (ho : G job = some o)
    (hlayers : c.layers = o.layers) (hadmits : e.Admits o) (hfits : ¬ o.Fits) :
    ∃ (e' : Engine Int α) (failure : Failure), (e.startAttempt job c).Comes e' ∧ e'.turns = [] ∧
      e'.settled = e.settled ++ [(job, .error failure)] ∧ failure.code? = some .incompatibleFormats := by
  obtain ⟨hj, hsane⟩ := hs.asked job o ho
  obtain ⟨pool, sources, destination, hslotted⟩ := startAttempt_slotted hs.sound hcalm.ready hlayers hsane.valid
    hadmits.room
  obtain ⟨failure, hcode, hstart⟩ := hslotted.refused hadmits hsane.valid hlayers hfits
  obtain ⟨grants, hgains⟩ := hslotted.gains
  have hone : e.turns ++ [(1, .planned job)] = [(1, .planned job)] := by
    rw [hturns]
    rfl
  rw [hstart]
  obtain ⟨e', hcomes, hturns', hsettled⟩ := planned_fails
    (e := (({ e with pool } : Engine Int α).setCall job
      { c with held := sources ++ [destination], phase := .planned (.error failure) }).schedule 1 (.planned job))
    hgains.sound (hgains.toLeads.destroys hcalm.destroys) (call?_setCall_self (e := { e with pool }) hj _) rfl
    (by rw [hcode]; decide) hone
  exact ⟨e', failure, hcomes, hturns', hsettled, hcode⟩

end

end Engine

end Strata
